import Haklang.CommandLine.Invocation

/-!
# The program

Collects what a run depends on, and carries out what the run came to.
-/

namespace Haklang

/-- The words and the number of an error of the operating system. The number may come negated, in
32 bits. -/
def systemError (code : UInt32) (details : String) : String :=
  let code := if code < 2147483648 then code else 0 - code
  details.capitalize ++ " (os error " ++ toString code ++ ")"

/-- Why a file cannot be read. -/
def reason : IO.Error → String
  | .noFileOrDirectory _ code details => systemError code details
  | .permissionDenied _ code details => systemError code details
  | .inappropriateType _ code details => systemError code details
  | .invalidArgument _ code details => systemError code details
  | .resourceExhausted _ code details => systemError code details
  | .otherError code details => systemError code details
  | e => toString e

/-- The text of a file, or why it cannot be read. -/
def readProgram (path : String) : IO (Except String String) := do
  try
    match String.fromUTF8? (← IO.FS.readBinFile path) with
    | some text => return .ok text
    | none => return .error "stream did not contain valid UTF-8"
  catch e => return .error (reason e)

/-- The rest of a stream, after the text read so far. -/
partial def readRest (stream : IO.FS.Stream) (text : String) : IO String := do
  let line ← stream.getLine
  if line.isEmpty then return text else readRest stream (text ++ line)

/-- A random seed. -/
def freshSeed : IO UInt64 := do
  let bytes ← IO.getRandomBytes 8
  return bytes.toList.foldl (fun seed byte ↦ seed * 256 + byte.toUInt64) 0

/-- Pauses for whole milliseconds; a pause beyond 32 bits is cut into parts. -/
def pause (milliseconds : Nat) : IO Unit := do
  let most := UInt32.size - 1
  for _ in [0:milliseconds / most] do IO.sleep most.toUInt32
  IO.sleep (milliseconds % most).toUInt32

/-- Carries out what was done at the console. -/
def perform : Console.Event → IO Unit
  | .output s => do
    let stream ← IO.getStdout
    stream.putStr s
    stream.flush
  | .message s => do (← IO.getStderr).putStr s
  | .pause nanoseconds => pause ((nanoseconds + 999999) / 1000000)

end Haklang

open Haklang in
/-- Runs the program. The file and the standard input are read only if the arguments ask for a run
that can use them. -/
def main (arguments : List String) : IO UInt32 := do
  let environmentSeed? ← IO.getEnv "HAKLANG_SEED"
  let mut contents := Except.error ""
  let mut input := ""
  match Arguments.ofList arguments environmentSeed? with
  | .error _ => pure ()
  | .ok a =>
    match a.source with
    | .file path => contents ← readProgram path
    | _ => pure ()
    input ← readRest (← IO.getStdin) ""
  let file := contents
  let report := Invocation.run
    { arguments, environmentSeed?, file := fun _ ↦ file, input, freshSeed := ← freshSeed }
  for event in report.console.transcript do perform event
  return UInt32.ofNat report.code

/-!
# The console

A program reads lines from the console and writes text and messages to it; it may also ask for a
pause. All that a program does there is kept in the order in which it was done
(`Console.transcript`), so that it can be carried out later. The text written, the messages and the
pauses are views of the transcript.
-/

namespace Haklang

/-- What a program does at the console, reading apart. -/
inductive Console.Event where
  /-- Writes text. -/
  | output (s : String)
  /-- Writes a message. -/
  | message (s : String)
  /-- Pauses for a number of nanoseconds. -/
  | pause (nanoseconds : Nat)
deriving DecidableEq, Repr

/-- The lines that are left to read, and what was done so far. -/
structure Console where
  /-- The lines that are left, without their ends. -/
  input : List String := []
  /-- What was done, in order. -/
  transcript : Array Console.Event := #[]

namespace Console

instance : Inhabited Console := ⟨{}⟩

/-- The lines of a text without their ends. An end is a line feed, or a carriage return and a line
feed; text after the last end is one more line, if there is any. -/
def lines (text : String) : List String :=
  let pieces := text.toList.splitOn '\n'
  let ended := pieces.dropLast.map fun cs ↦
    if cs.getLast? = some '\r' then cs.dropLast else cs
  (ended ++ (pieces.getLast?.filter (· ≠ [])).toList).map String.ofList

/-- Notes one more event. -/
def note (c : Console) (e : Event) : Console := { c with transcript := c.transcript.push e }

/-- The next line, if there is one. -/
def readLine (c : Console) : Option String × Console :=
  match c.input with
  | [] => (none, c)
  | line :: rest => (some line, { c with input := rest })

/-- The text that an event writes. -/
def Event.output? : Event → Option String
  | output s => some s
  | _ => none

/-- The message that an event writes. -/
def Event.message? : Event → Option String
  | message s => some s
  | _ => none

/-- The length of the pause that an event asks for. -/
def Event.pause? : Event → Option Nat
  | pause n => some n
  | _ => none

/-- The text written. -/
def output (c : Console) : String := String.join (c.transcript.toList.filterMap Event.output?)

/-- The messages written. -/
def messages (c : Console) : String := String.join (c.transcript.toList.filterMap Event.message?)

/-- The pauses asked for, in nanoseconds. -/
def pauses (c : Console) : List Nat := c.transcript.toList.filterMap Event.pause?

/-- Reading is not noted. -/
@[simp] theorem transcript_readLine (c : Console) : c.readLine.2.transcript = c.transcript := by
  unfold readLine
  split <;> rfl

theorem length_input_readLine_le (c : Console) : c.readLine.2.input.length ≤ c.input.length := by
  unfold readLine
  split <;> simp_all

end Console

end Haklang

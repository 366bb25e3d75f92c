import Haklang.Session

/-!
# The prompt

The prompt takes source lines from the console, the same lines that the program itself reads when
it asks for input. A failure is reported and the prompt goes on. The prompt ends with the input, or
at a line that says so, and the session ends with it.
-/

namespace Haklang

namespace Prompt

/-- The name of the program and its version. -/
def programVersion : String := "haklang 0.1.0"

/-- What the prompt starts with. -/
def greeting : String :=
  programVersion ++ " interactive mode\nType statements. Use exit to quit.\n\n"

/-- The line that ends the prompt. -/
def farewell : String := "exit"

/-- Takes one more character of a line: a backspace removes the last of the characters kept so
far, which come last first. -/
def keep (kept : List Char) (c : Char) : List Char :=
  if c = '\x08' then kept.tail else c :: kept

/-- The text that is left of a line when each backspace has removed the character before it. -/
def corrected (line : String) : String := String.ofList (line.toList.foldl keep []).reverse

theorem foldl_keep_of_not_mem {cs : List Char} (h : '\x08' ∉ cs) (kept : List Char) :
    cs.foldl keep kept = cs.reverse ++ kept := by
  induction cs generalizing kept with
  | nil => rfl
  | cons c rest ih =>
    obtain ⟨hc, hrest⟩ := not_or.1 (mt List.mem_cons.2 h)
    rw [List.foldl_cons, ih hrest, keep, if_neg (Ne.symm hc), List.reverse_cons, List.append_assoc]
    rfl

/-- A line without backspaces stays as it is. -/
theorem corrected_of_not_mem {line : String} (h : '\x08' ∉ line.toList) :
    corrected line = line := by
  rw [corrected, foldl_keep_of_not_mem h, List.append_nil, List.reverse_reverse,
    String.ofList_toList]

/-- Takes lines, the next of which has a number, as long as at most so many are left. -/
def takeLines (s : Session) (number : Nat) : Nat → Session
  | 0 => s
  | left + 1 =>
    match s.machine.console.readLine with
    | (none, _) => s
    | (some line, console) =>
      let s := { s with machine.console := console }
      let text := Text.trimmed (corrected line)
      if text = farewell then s
      else
        match s.feed text number with
        | (.ok _, s) => takeLines s (number + 1) left
        | (.error d, s) => takeLines (s.report (d.render ++ "\n")) (number + 1) left

/-- Runs the prompt to its end, and ends the session. -/
def run (s : Session) : Session :=
  let s := { s with machine.console := s.machine.console.note (.output greeting) }
  (takeLines s 1 s.machine.console.input.length).finish

example : corrected "ab\x08c" = "ac" := by decide +kernel

end Prompt

end Haklang

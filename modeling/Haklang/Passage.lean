import Haklang.SourceLine
import Haklang.Line.Reader

/-!
# Passages

A passage is what runs as one: a line that is no header, or a header with the lines of its body.
Lines are gathered one by one. Outside a block every line but a header is a passage of its own; a
header opens a block, and the block is gathered until as many closers have been met as headers.
Inner blocks stay inside the body, with their openers and closers: the body is gathered again when
the block is built.

The word `학` is both an opener and a closer. Directly after a header it opens the body; anywhere
else it closes the innermost block. The opener of the outermost block is not part of the passage,
nor is its closer.

`size_gather_le` says that no line is counted twice: the passages and the open block together have
at most as many lines as were given.
-/

namespace Haklang

/-- A line that is no header, or a header with the lines of its body. -/
structure Passage where
  /-- The first line. -/
  head : SourceLine
  /-- The lines of the body. -/
  body : List SourceLine := []
deriving DecidableEq, Repr

/-- The number of lines of a passage. -/
def Passage.size (p : Passage) : Nat := p.body.length + 1

/-- The number of lines of all passages together. -/
def Passage.totalSize : List Passage → Nat
  | [] => 0
  | p :: rest => p.size + totalSize rest

@[simp] theorem Passage.totalSize_append (ps qs : List Passage) :
    totalSize (ps ++ qs) = totalSize ps + totalSize qs := by
  induction ps with
  | nil => simp [totalSize]
  | cons p rest ih => simp [totalSize, ih, Nat.add_assoc]

/-- Where the gathering of lines stands. -/
inductive Collector where
  /-- Outside all blocks. -/
  | idle
  /-- In a block with the given header, the lines of its body so far, and the number of inner
  blocks that are open. The last field says whether the line before was a header. -/
  | inside (head : SourceLine) (body : Array SourceLine) (inner : Nat) (afterHeader : Bool)

namespace Collector

/-- Whether a block is open. -/
def isCollecting : Collector → Bool
  | idle => false
  | inside _ _ _ _ => true

/-- The number of blocks that are open. -/
def depth : Collector → Nat
  | idle => 0
  | inside _ _ inner _ => inner + 1

/-- The number of lines that are held back. -/
def size : Collector → Nat
  | idle => 0
  | inside _ body _ _ => body.size + 1

/-- Takes one line, and gives a passage if the line completes one. -/
def push (c : Collector) (line : SourceLine) : Collector × Option Passage :=
  match c with
  | idle =>
    if (Line.ofString line.text).isHeader then (inside line #[] 0 true, none)
    else (idle, some { head := line })
  | inside head body inner afterHeader =>
    if afterHeader && line.text == Line.bodyOpener then
      (inside head (if inner = 0 then body else body.push line) inner false, none)
    else if (Line.ofString line.text).isHeader then
      (inside head (body.push line) (inner + 1) true, none)
    else if Line.isCloser line.text then
      if inner = 0 then (idle, some { head := head, body := body.toList })
      else (inside head (body.push line) (inner - 1) false, none)
    else (inside head (body.push line) inner false, none)

/-- The header of the block that is open when the lines end. The block is dropped. -/
def unfinished? : Collector → Option SourceLine
  | idle => none
  | inside head _ _ _ => some head

/-- The passages that the lines complete, in order, and where the gathering stands after them. -/
def gather (c : Collector) : List SourceLine → List Passage × Collector
  | [] => ([], c)
  | line :: rest =>
    let (c, passage?) := c.push line
    let (passages, c) := c.gather rest
    (passage?.toList ++ passages, c)

/-- Taking a line adds at most that line. -/
theorem size_push_le (c : Collector) (line : SourceLine) :
    Passage.totalSize (c.push line).2.toList + (c.push line).1.size ≤ c.size + 1 := by
  cases c with
  | idle =>
    simp only [push]
    split <;> simp [size, Passage.totalSize, Passage.size]
  | inside head body inner afterHeader =>
    simp only [push]
    split
    · split <;> simp [size, Passage.totalSize]
    · split
      · simp [size, Passage.totalSize]
      · split
        · split <;> simp [size, Passage.totalSize, Passage.size]
        · simp [size, Passage.totalSize]

/-- The passages and the open block have at most as many lines as were given. -/
theorem size_gather_le (c : Collector) (lines : List SourceLine) :
    Passage.totalSize (c.gather lines).1 + (c.gather lines).2.size ≤
      c.size + lines.length := by
  induction lines generalizing c with
  | nil => simp [gather, Passage.totalSize]
  | cons line rest ih =>
    have h1 := c.size_push_le line
    have h2 := ih (c.push line).1
    simp only [gather, Passage.totalSize_append, List.length_cons]
    omega

end Collector

/-- The passages of a body. A block that is still open at the end is dropped. -/
def Passage.ofLines (lines : List SourceLine) : List Passage := (Collector.idle.gather lines).1

theorem Passage.size_ofLines_le (lines : List SourceLine) :
    Passage.totalSize (Passage.ofLines lines) ≤ lines.length := by
  have h := Collector.size_gather_le .idle lines
  simp only [Collector.size] at h
  simp only [Passage.ofLines]
  omega

end Haklang

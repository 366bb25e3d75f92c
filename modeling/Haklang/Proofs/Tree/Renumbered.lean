import Haklang.Tree

/-!
# Lines with other numbers

What a line is depends on its text and not on its number. So lines with other numbers are gathered
into the same passages, with those numbers (`Collector.push_renumber`), and built into the same
trees, under the same serial numbers (`Tree.renumber_build`). Nothing is asked of the numbering.
-/

namespace Haklang

variable (f : Nat → Nat)

/-! ### Lines and passages -/

/-- The line with another number. -/
def SourceLine.renumber (line : SourceLine) : SourceLine := { line with number := f line.number }

/-- The passage, its lines with other numbers. -/
def Passage.renumber (p : Passage) : Passage :=
  { head := p.head.renumber f, body := p.body.map (·.renumber f) }

/-- The collector, the lines that it holds with other numbers. -/
def Collector.renumber : Collector → Collector
  | idle => idle
  | inside head body inner afterHeader =>
    inside (head.renumber f) (body.map (·.renumber f)) inner afterHeader

namespace Collector

/-- Taking a line with another number completes the same passage, with other numbers. -/
theorem push_renumber (c : Collector) (line : SourceLine) :
    (c.renumber f).push (line.renumber f) =
      ((c.push line).1.renumber f, (c.push line).2.map (·.renumber f)) := by
  have htext : (line.renumber f).text = line.text := rfl
  cases c with
  | idle =>
    rw [show idle.renumber f = idle from rfl, push, push, htext]
    split <;> simp [renumber, Passage.renumber]
  | inside head body inner afterHeader =>
    rw [renumber, push, push, htext]
    split
    · split <;> simp [renumber]
    · split
      · simp [renumber]
      · split
        · split <;> simp [renumber, Passage.renumber]
        · simp [renumber]

/-- Lines with other numbers complete the same passages, with other numbers. -/
theorem gather_renumber (c : Collector) (lines : List SourceLine) :
    (c.renumber f).gather (lines.map (·.renumber f)) =
      ((c.gather lines).1.map (·.renumber f), (c.gather lines).2.renumber f) := by
  induction lines generalizing c with
  | nil => rfl
  | cons line rest ih =>
    simp only [List.map_cons, gather, push_renumber, ih, List.map_append]
    cases (c.push line).2 <;> rfl

end Collector

theorem Passage.ofLines_renumber (lines : List SourceLine) :
    ofLines (lines.map (·.renumber f)) = (ofLines lines).map (·.renumber f) :=
  congrArg Prod.fst (Collector.gather_renumber f .idle lines)

/-! ### Trees -/

namespace Tree

mutual

/-- The tree, its lines with other numbers. -/
def renumber : Tree → Tree
  | statement id line s => statement id (line.renumber f) s
  | block id line head body => block id (line.renumber f) head (renumberAll body)
  | twice id line inner => twice id (line.renumber f) (renumber inner)

/-- The trees, their lines with other numbers. -/
def renumberAll : List Tree → List Tree
  | [] => []
  | t :: rest => renumber t :: renumberAll rest

end

variable {f}

theorem line_renumber (t : Tree) : (t.renumber f).line = t.line.renumber f := by
  cases t <;> simp only [renumber, line]

theorem repeated_renumber (t : Tree) (twice? : Bool) (next : Nat) :
    (t.renumber f).repeated twice? next =
      ((t.repeated twice? next).1.renumber f, (t.repeated twice? next).2) := by
  cases twice? with
  | false => rfl
  | true => simp only [repeated, if_true, line_renumber, renumber]

/-- Lines with other numbers are built into the same trees, with other numbers. The three parts are
proved together, along the recursion of the functions that build. -/
theorem renumber_build :
    (∀ p next, ofPassage? (p.renumber f) next =
      (ofPassage? p next).map fun r ↦ (r.1.renumber f, r.2)) ∧
    (∀ lines next, ofLines (lines.map (·.renumber f)) next =
      (renumberAll f (ofLines lines next).1, (ofLines lines next).2)) ∧
    ∀ passages twice? next, ofPassages (passages.map (·.renumber f)) twice? next =
      (renumberAll f (ofPassages passages twice? next).1,
        (ofPassages passages twice? next).2) := by
  apply ofPassage?.mutual_induct
  · intro p next hp
    have hp' : Line.ofString (p.renumber f).head.text = .twice := hp
    rw [ofPassage?, ofPassage?, hp, hp']
    rfl
  · intro p next s hp
    have hp' : Line.ofString (p.renumber f).head.text = .statement s := hp
    rw [ofPassage?, ofPassage?, hp, hp']
    simp only [Option.map_some, renumber]
    rfl
  · intro p next header hp body bodyNext hbody ih
    have hp' : Line.ofString (p.renumber f).head.text = .header header := hp
    have hlines : ofLines (p.renumber f).body next = _ := ih
    rw [ofPassage?, ofPassage?, hp, hp']
    simp only [hlines, hbody, Option.map_some, renumber]
    rfl
  · intro lines next ih
    rw [ofLines, ofLines, Passage.ofLines_renumber]
    exact ih
  · intro twice? next
    rw [List.map_nil, ofPassages, renumberAll]
  · intro twice? next p rest hp ihp ih
    rw [hp] at ihp
    rw [List.map_cons, ofPassages, ofPassages, hp, ihp]
    exact ih
  · intro twice? next p rest t tNext hp t' next' hrepeated trees last hrest ihp ih
    rw [hp] at ihp
    have hrepeat := repeated_renumber (f := f) t twice? tNext
    rw [hrepeated] at hrepeat
    rw [hrest] at ih
    rw [List.map_cons, ofPassages, ofPassages, hp, ihp]
    simp only [Option.map_some, hrepeated, hrepeat, hrest, ih, renumberAll]

theorem ofPassage?_renumber (p : Passage) (next : Nat) : ofPassage? (p.renumber f) next =
    (ofPassage? p next).map fun r ↦ (r.1.renumber f, r.2) :=
  renumber_build.1 p next

end Tree

end Haklang

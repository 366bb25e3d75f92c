import Haklang.Proofs.Passage.Conservation

/-!
# Trees and their lines

A tree is written in some lines if it and all trees inside stand at one of them: a statement at a
line that reads as the statement, a block at a line that reads as its header, and a tree that runs
twice at the line of the tree inside (`Tree.WrittenIn`). Trees that are built from passages are
written in the lines of the passages (`Tree.writtenIn_build`), since gathering makes up no lines
(`Collector.lines_subset_of_push`).
-/

namespace Haklang

/-! ### Lines that are held -/

namespace Collector

theorem keptBehind_subset (before lines : List SourceLine) : keptBehind before lines ⊆ lines := by
  induction lines generalizing before with
  | nil => exact List.Subset.refl _
  | cons line rest ih =>
    rw [keptBehind]
    split
    · exact List.subset_cons_of_subset line (ih _)
    · exact List.cons_subset_cons line (ih _)

/-- What is given away with a line, and what is held behind it, was held before or is the line. -/
theorem lines_subset_of_push {c c' : Collector} {line : SourceLine} {passage? : Option Passage}
    (h : c.push line = (c', passage?)) :
    passage?.toList.flatMap Passage.lines ++ c'.held ⊆ c.held ++ [line] := by
  have hlines := (c.takes_push line).flatMap_lines_eq
  rw [h] at hlines
  rw [hlines]
  split
  · rw [List.append_nil]
    exact List.subset_append_left _ _
  · exact List.Subset.refl _

/-- The passages of a body have no other lines. -/
theorem flatMap_lines_ofLines_subset (lines : List SourceLine) :
    (Passage.ofLines lines).flatMap Passage.lines ⊆ lines := by
  have hgather := flatMap_gather [] lines
  rw [show after [] = idle from rfl, held, List.nil_append] at hgather
  exact fun line hline ↦ keptBehind_subset [] lines (hgather ▸ List.mem_append_left _ hline)

end Collector

/-! ### Written trees -/

namespace Tree

/-- The tree and all trees inside stand at lines of the list, and their statements and headers are
what these lines read as. -/
inductive WrittenIn (lines : List SourceLine) : Tree → Prop where
  /-- A statement is what its line reads as. -/
  | statement {id : Nat} {line : SourceLine} {s : Statement} (hline : line ∈ lines)
    (hs : Line.ofString line.text = .statement s) : WrittenIn lines (.statement id line s)
  /-- The head of a block is what its line reads as. -/
  | block {id : Nat} {line : SourceLine} {header : Header} {body : List Tree}
    (hline : line ∈ lines) (hheader : Line.ofString line.text = .header header)
    (hbody : ∀ t ∈ body, WrittenIn lines t) :
    WrittenIn lines (.block id line (.ofHeader header) body)
  /-- A tree that runs twice stands at the line of the tree inside. -/
  | twice {id : Nat} {inner : Tree} (hinner : WrittenIn lines inner) :
    WrittenIn lines (.twice id inner.line inner)

namespace WrittenIn

variable {lines more : List SourceLine} {t : Tree}

theorem mono (h : t.WrittenIn lines) (hmore : lines ⊆ more) : t.WrittenIn more := by
  induction h with
  | statement hline hs => exact .statement (hmore hline) hs
  | block hline hheader _ ih => exact .block (hmore hline) hheader ih
  | twice _ ih => exact .twice ih

theorem line_mem (h : t.WrittenIn lines) : t.line ∈ lines := by
  induction h with
  | statement hline _ => exact hline
  | block hline _ _ _ => exact hline
  | twice _ ih => exact ih

theorem repeated (h : t.WrittenIn lines) (twice? : Bool) (next : Nat) :
    (t.repeated twice? next).1.WrittenIn lines := by
  cases twice? with
  | false => exact h
  | true => exact .twice h

end WrittenIn

/-- Trees are written in the lines that they are built from. The three parts are proved together,
along the recursion of the functions that build. -/
theorem writtenIn_build :
    (∀ p next, ∀ t next', ofPassage? p next = some (t, next') → t.WrittenIn p.lines) ∧
    (∀ lines next, ∀ t ∈ (ofLines lines next).1, t.WrittenIn lines) ∧
    ∀ passages twice? next,
      ∀ t ∈ (ofPassages passages twice? next).1, t.WrittenIn (passages.flatMap Passage.lines) := by
  apply ofPassage?.mutual_induct
  · -- the marker is no tree
    intro p next hp t next' h
    simp [ofPassage?, hp] at h
  · intro p next s hp t next' h
    rw [ofPassage?, hp] at h
    obtain ⟨rfl, rfl⟩ := h
    exact .statement (.head _) hp
  · -- the trees of a body are written in the body
    intro p next header hp body bodyNext hbody ih t next' h
    rw [ofPassage?, hp] at h
    simp only [hbody, Option.some.injEq, Prod.mk.injEq] at h
    obtain ⟨rfl, rfl⟩ := h
    rw [hbody] at ih
    exact .block (.head _) hp fun t ht ↦ (ih t ht).mono (List.subset_cons_self _ _)
  · intro lines next ih t ht
    rw [ofLines] at ht
    exact (ih t ht).mono (Collector.flatMap_lines_ofLines_subset lines)
  · intro twice? next t ht
    rw [ofPassages] at ht
    cases ht
  · -- a marker leaves nothing
    intro twice? next p rest hp _ ih t ht
    rw [ofPassages, hp] at ht
    rw [List.flatMap_cons]
    exact (ih t ht).mono (List.subset_append_right _ _)
  · intro twice? next p rest t tNext hp t' next' hrepeated trees last hrest iht ihrest u hu
    rw [ofPassages, hp] at hu
    simp only [hrepeated, hrest] at hu
    rw [List.flatMap_cons]
    rw [hrest] at ihrest
    rcases List.mem_cons.1 hu with rfl | hu
    · have ht := (iht t tNext hp).repeated twice? tNext
      rw [hrepeated] at ht
      exact ht.mono (List.subset_append_left _ _)
    · exact (ihrest u hu).mono (List.subset_append_right _ _)

end Tree

end Haklang

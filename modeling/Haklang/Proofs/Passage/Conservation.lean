import Haklang.Proofs.Tree.Grammar
import Mathlib.Data.List.Induction

/-!
# What becomes of the lines

Nothing is asked of the lines here: headers, openers and closers may stand in any order. Gathering
still loses nothing but what delimits the outermost blocks: the passages, and what is held of a
block that is still open, are the lines without the openers and closers of the outermost blocks
(`Collector.flatMap_gather`).

The body of a passage is gathered anew, by a collector that has never seen the header. It reads the
same lines one level further out: as long as inner blocks are open, the two collectors agree on how
many there are and on whether a header was the line before (`Collector.Matches`). So the body holds
no closer outside its blocks and leaves none of them open (`IsClosed`), whatever lines it came from,
and the same is then true of the bodies inside it. Built into trees, such a body gives each of its
headers a block and each other line a statement, except for the marker, and no closer becomes a
statement (`Tree.outline_build`).
-/

namespace Haklang

/-- The lines of a passage. -/
def Passage.lines (p : Passage) : List SourceLine := p.head :: p.body

namespace Collector

open Line

/-- The lines that are held back. -/
def held : Collector → List SourceLine
  | idle => []
  | inside head body _ _ => head :: body.toList

/-- Whether the line before was a header. -/
def awaits : Collector → Bool
  | idle => false
  | inside _ _ _ afterHeader => afterHeader

/-- The collector behind the given lines, from a fresh start. -/
def after (lines : List SourceLine) : Collector := (idle.gather lines).2

/-! ### Taking a line -/

/-- What taking a line can do, one rule for each way. -/
inductive Takes (line : SourceLine) : Collector → Collector × Option Passage → Prop where
  /-- Outside blocks, a line that is no header is a passage. -/
  | alone (hh : (ofString line.text).isHeader = false) :
    Takes line idle (idle, some { head := line })
  /-- The header of an outermost block. -/
  | header (hh : (ofString line.text).isHeader = true) :
    Takes line idle (inside line #[] 0 true, none)
  /-- The opener of an outermost block is left out. -/
  | opener {head body} (ht : line.text = bodyOpener) :
    Takes line (inside head body 0 true) (inside head body 0 false, none)
  /-- The closer of an outermost block is left out. -/
  | closer {head body afterHeader} (hc : isCloser line.text = true)
    (hne : ¬ (afterHeader = true ∧ line.text = bodyOpener)) :
    Takes line (inside head body 0 afterHeader) (idle, some { head := head, body := body.toList })
  /-- The header of an inner block is kept. -/
  | innerHeader {head body inner afterHeader} (hh : (ofString line.text).isHeader = true) :
    Takes line (inside head body inner afterHeader)
      (inside head (body.push line) (inner + 1) true, none)
  /-- The opener of an inner block is kept. -/
  | innerOpener {head body inner} (ht : line.text = bodyOpener) :
    Takes line (inside head body (inner + 1) true)
      (inside head (body.push line) (inner + 1) false, none)
  /-- The closer of an inner block is kept. -/
  | innerCloser {head body inner afterHeader} (hc : isCloser line.text = true)
    (hne : ¬ (afterHeader = true ∧ line.text = bodyOpener)) :
    Takes line (inside head body (inner + 1) afterHeader)
      (inside head (body.push line) inner false, none)
  /-- Any other line of a block is kept. -/
  | plain {head body inner afterHeader} (hh : (ofString line.text).isHeader = false)
    (hc : isCloser line.text = false) :
    Takes line (inside head body inner afterHeader)
      (inside head (body.push line) inner false, none)

/-- Whatever line a collector is given, it takes it in one of these ways. -/
theorem takes_push (c : Collector) (line : SourceLine) : Takes line c (c.push line) := by
  rcases c with - | ⟨head, body, inner, afterHeader⟩
  · rcases hh : (ofString line.text).isHeader with - | -
    · simpa [push, hh] using Takes.alone hh
    · simpa [push, hh] using Takes.header hh
  by_cases hopen : afterHeader = true ∧ line.text = bodyOpener
  · obtain ⟨rfl, ht⟩ := hopen
    rcases inner with - | inner
    · simpa [push, ht] using @Takes.opener line head body ht
    · rw [push_inside_of_opener ht]
      exact .innerOpener ht
  · rcases hh : (ofString line.text).isHeader with - | -
    · rcases hc : isCloser line.text with - | -
      · rw [push_inside_of_not hh hc]
        exact .plain hh hc
      · rcases inner with - | inner
        · rw [push_inside_zero_of_isCloser hc hopen]
          exact .closer hc hopen
        · rw [push_inside_of_isCloser hc hopen]
          exact .innerCloser hc hopen
    · rw [push_inside_of_isHeader hh]
      exact .innerHeader hh

namespace Takes

variable {line : SourceLine} {c : Collector} {r : Collector × Option Passage}

/-- A header is awaited an opener for, and nothing else is. -/
theorem awaits_eq (h : Takes line c r) : r.1.awaits = (ofString line.text).isHeader := by
  cases h with
  | alone hh | header hh | innerHeader hh | plain hh _ => exact hh.symm
  | opener ht | innerOpener ht => rw [ht]; exact (isHeader_of_isCloser isCloser_bodyOpener).symm
  | closer hc _ | innerCloser hc _ => exact (isHeader_of_isCloser hc).symm

/-- A header adds one to the open blocks, a closer that is no opener takes one away if there is
any, and every other line leaves their number as it is. -/
theorem depth_eq (h : Takes line c r) :
    if (ofString line.text).isHeader = true then r.1.depth = c.depth + 1
    else if isCloser line.text = true ∧ ¬ (c.awaits = true ∧ line.text = bodyOpener) ∧ c.depth ≠ 0
      then r.1.depth + 1 = c.depth
    else r.1.depth = c.depth := by
  have hopener : (ofString bodyOpener).isHeader = false := isHeader_of_isCloser isCloser_bodyOpener
  cases h with
  | alone hh => simp [hh, depth]
  | header hh | innerHeader hh => simp [hh, depth]
  | opener ht | innerOpener ht => simp [ht, hopener, awaits, depth]
  | closer hc hne | innerCloser hc hne =>
    rw [if_neg (by simp [isHeader_of_isCloser hc]), if_pos ⟨hc, hne, Nat.succ_ne_zero _⟩]
    rfl
  | plain hh hc => simp [hh, hc, depth]

/-- What is given away and what is held are what was held before, and the line, unless that is the
opener or the closer of an outermost block. -/
theorem flatMap_lines_eq (h : Takes line c r) :
    r.2.toList.flatMap Passage.lines ++ r.1.held =
      c.held ++ if (c.awaits = true ∧ line.text = bodyOpener ∧ c.depth = 1) ∨
          (isCloser line.text = true ∧ c.depth ≠ 0 ∧ r.1.depth = 0) then [] else [line] := by
  cases h with
  | alone hh => simp [Passage.lines, held, awaits, depth]
  | header hh => simp [held, awaits, depth]
  | opener ht => simp [held, awaits, depth, ht]
  | closer hc hne => simp [Passage.lines, held, depth, hc]
  | innerHeader hh =>
    have ht : line.text ≠ bodyOpener := by simpa using beq_bodyOpener_of_isHeader hh
    simp [held, depth, ht]
  | innerOpener ht => simp [held, depth]
  | innerCloser hc hne => simp [held, depth]
  | plain hh hc =>
    have ht : line.text ≠ bodyOpener := by simpa using beq_bodyOpener_of_isCloser hc
    simp [held, depth, hc, ht]

end Takes

/-! ### Gathering in parts -/

/-- Lines may be gathered in two parts, with the collector passed on in between. -/
theorem gather_append (c : Collector) (lines more : List SourceLine) :
    c.gather (lines ++ more) =
      ((c.gather lines).1 ++ ((c.gather lines).2.gather more).1,
        ((c.gather lines).2.gather more).2) := by
  induction lines generalizing c with
  | nil => rfl
  | cons line lines ih => rw [List.cons_append, gather_cons, ih, gather_cons, List.append_assoc]

/-- A collector behind one more line is the one before it, with that line pushed. -/
theorem after_concat (before : List SourceLine) (line : SourceLine) :
    after (before ++ [line]) = ((after before).push line).1 := by
  rw [after, gather_append]
  rfl

/-- So each line is taken up by the collector behind those before it. -/
theorem takes_after (before : List SourceLine) (line : SourceLine) :
    Takes line (after before) (after (before ++ [line]), ((after before).push line).2) := by
  rw [after_concat]
  exact takes_push (after before) line

/-- Every passage is completed by one of the lines. -/
theorem exists_push_of_mem {p : Passage} {lines : List SourceLine}
    (h : p ∈ (idle.gather lines).1) :
    ∃ before line rest, lines = before ++ line :: rest ∧ ((after before).push line).2 = some p := by
  induction lines using List.reverseRecOn with
  | nil => cases h
  | append_singleton lines line ih =>
    rw [gather_append, List.mem_append] at h
    rcases h with h | h
    · obtain ⟨before, line', rest, rfl, hp⟩ := ih h
      exact ⟨before, line', rest ++ [line], by simp, hp⟩
    · refine ⟨lines, line, [], rfl, ?_⟩
      simpa [gather_cons, gather, after] using h

/-! ### What is left out -/

/-- Whether a line opens the body of a block, behind the given ones: directly behind a header. -/
def Opens (before : List SourceLine) (line : SourceLine) : Prop :=
  (before.getLast?.any fun l ↦ (ofString l.text).isHeader) = true ∧ line.text = bodyOpener

instance (before : List SourceLine) (line : SourceLine) : Decidable (Opens before line) :=
  inferInstanceAs (Decidable (_ ∧ _))

/-- Whether a line is left out, behind the given ones: the opener directly behind a header outside
all blocks, and the closer behind which no block is open any more. -/
def LeftOut (before : List SourceLine) (line : SourceLine) : Prop :=
  (Opens before line ∧ (after before.dropLast).depth = 0) ∨
    (isCloser line.text = true ∧ (after before).depth ≠ 0 ∧ (after (before ++ [line])).depth = 0)

instance (before : List SourceLine) (line : SourceLine) : Decidable (LeftOut before line) :=
  inferInstanceAs (Decidable (_ ∨ _))

/-- Of the lines that follow the given ones, those that are not left out. -/
def keptBehind : List SourceLine → List SourceLine → List SourceLine
  | _, [] => []
  | before, line :: rest =>
    if LeftOut before line then keptBehind (before ++ [line]) rest
    else line :: keptBehind (before ++ [line]) rest

/-- A header is awaited an opener for as long as it is the last line. -/
theorem awaits_after (before : List SourceLine) :
    (after before).awaits = before.getLast?.any fun l ↦ (ofString l.text).isHeader := by
  rcases before.eq_nil_or_concat with rfl | ⟨earlier, l, rfl⟩
  · rfl
  · rw [List.concat_eq_append, (takes_after earlier l).awaits_eq]
    simp

/-- How the number of open blocks changes with a line. It cannot fall below zero: a closer takes one
away only if there is one. -/
theorem depth_after_concat (before : List SourceLine) (line : SourceLine) :
    if (ofString line.text).isHeader = true then
      (after (before ++ [line])).depth = (after before).depth + 1
    else if isCloser line.text = true ∧ ¬ Opens before line ∧ (after before).depth ≠ 0 then
      (after (before ++ [line])).depth + 1 = (after before).depth
    else (after (before ++ [line])).depth = (after before).depth := by
  have h := (takes_after before line).depth_eq
  rwa [awaits_after] at h

/-- An opener belongs to an outermost block exactly if that is the only one open. -/
theorem depth_dropLast_eq_zero_iff {before : List SourceLine} {line : SourceLine}
    (h : Opens before line) :
    (after before.dropLast).depth = 0 ↔ (after before).depth = 1 := by
  rcases before.eq_nil_or_concat with rfl | ⟨earlier, l, rfl⟩
  · cases h.1
  · have hl : (ofString l.text).isHeader = true := by simpa using h.1
    have hdepth := depth_after_concat earlier l
    rw [if_pos hl] at hdepth
    rw [List.concat_eq_append, List.dropLast_concat, hdepth]
    omega

/-- A line is left out if it opens the body of an outermost block, or if it closes such a block. -/
theorem leftOut_iff (before : List SourceLine) (line : SourceLine) :
    LeftOut before line ↔
      ((after before).awaits = true ∧ line.text = bodyOpener ∧ (after before).depth = 1) ∨
        (isCloser line.text = true ∧ (after before).depth ≠ 0 ∧
          (after (before ++ [line])).depth = 0) := by
  refine or_congr_left ?_
  rw [awaits_after, ← and_assoc]
  exact and_congr_right depth_dropLast_eq_zero_iff

/-- Gathering loses nothing but what is left out. The induction is on the lines that are still to
come. -/
theorem flatMap_gather (before lines : List SourceLine) :
    ((after before).gather lines).1.flatMap Passage.lines ++
        ((after before).gather lines).2.held =
      (after before).held ++ keptBehind before lines := by
  induction lines generalizing before with
  | nil => simp [gather, keptBehind]
  | cons line rest ih =>
    have hline := (takes_after before line).flatMap_lines_eq
    simp only [← leftOut_iff] at hline
    rw [gather_cons, ← after_concat, List.flatMap_append, List.append_assoc, ih,
      ← List.append_assoc, hline, List.append_assoc, keptBehind]
    split <;> rfl

/-- What is left out is a closer, the opener included. -/
theorem LeftOut.isCloser {before : List SourceLine} {line : SourceLine}
    (h : LeftOut before line) : Line.isCloser line.text = true := by
  rcases h with ⟨⟨-, ht⟩, -⟩ | ⟨hc, -⟩
  · rw [ht]
    exact isCloser_bodyOpener
  · exact hc

/-! ### The body of a passage, gathered anew -/

/-- No line is a closer outside blocks. -/
def NoStray (lines : List SourceLine) : Prop :=
  ∀ before line rest, lines = before ++ line :: rest → after before = idle →
    isCloser line.text = false

/-- No line is a closer outside blocks, and no block is open at the end. -/
structure Closed (lines : List SourceLine) : Prop where
  /-- No line is a closer outside blocks. -/
  noStray : NoStray lines
  /-- No block is open at the end. -/
  after_eq : after lines = idle

/-- One more line may follow, if it is no closer outside blocks. -/
theorem NoStray.concat {lines : List SourceLine} {line : SourceLine} (h : NoStray lines)
    (hline : after lines = idle → isCloser line.text = false) : NoStray (lines ++ [line]) := by
  intro before l rest heq hidle
  rcases rest.eq_nil_or_concat with rfl | ⟨rest, l', rfl⟩
  · obtain ⟨rfl, hl⟩ := List.append_inj' heq rfl
    obtain rfl : line = l := by simpa using hl
    exact hline hidle
  · rw [List.concat_eq_append, ← List.cons_append, ← List.append_assoc] at heq
    exact h before l rest (List.append_inj' heq rfl).1 hidle

/-- At depth zero no header is open. -/
theorem eq_idle_of_depth_eq_zero {c : Collector} (h : c.depth = 0) : c = idle := by
  rcases c with - | ⟨head, body, inner, afterHeader⟩
  · rfl
  · cases h

/-- A collector inside a block agrees with one that gathers the body anew: that one has as many
blocks open as there are inner ones, has a header behind it if the first one has, and has met no
closer outside blocks. In front of the body there is a header. -/
def Matches : Collector → Prop
  | idle => True
  | inside head body inner afterHeader =>
    (ofString head.text).isHeader = true ∧ NoStray body.toList ∧
      (after body.toList).depth = inner ∧
      (inner ≠ 0 → (after body.toList).awaits = afterHeader)

end Collector

namespace Passage

/-- The passage is a line that is no header, or a header with a body that closes what it opens. -/
def IsWhole (p : Passage) : Prop :=
  ((Line.ofString p.head.text).isHeader = false ∧ p.body = []) ∨
    ((Line.ofString p.head.text).isHeader = true ∧ Collector.Closed p.body)

end Passage

namespace Collector

open Line

variable {line head : SourceLine} {body : Array SourceLine} {inner inner' : Nat}
  {afterHeader : Bool}

/-- A line of the body is taken by both collectors. -/
theorem Matches.push (hm : (inside head body inner afterHeader).Matches)
    (hstray : inner = 0 → isCloser line.text = false)
    (hdepth : (after (body.toList ++ [line])).depth = inner') :
    (inside head (body.push line) inner' (ofString line.text).isHeader).Matches := by
  obtain ⟨hhead, hno, hd, -⟩ := hm
  refine ⟨hhead, ?_, ?_, fun _ ↦ ?_⟩ <;> rw [Array.toList_push]
  · refine hno.concat fun hidle ↦ hstray ?_
    rw [← hd, hidle]
    rfl
  · exact hdepth
  · exact (takes_after body.toList line).awaits_eq

/-- Taking a line keeps the agreement, and a passage that is given away is whole. -/
theorem Takes.matches {c : Collector} {r : Collector × Option Passage} (h : Takes line c r)
    (hm : c.Matches) : r.1.Matches ∧ ∀ p ∈ r.2, p.IsWhole := by
  have hopener : (ofString bodyOpener).isHeader = false := isHeader_of_isCloser isCloser_bodyOpener
  cases h with
  | alone hh => exact ⟨trivial, by rintro p ⟨⟩; exact .inl ⟨hh, rfl⟩⟩
  | header hh =>
    refine ⟨⟨hh, fun before l rest heq _ ↦ ?_, rfl, fun h ↦ absurd rfl h⟩, by simp⟩
    simp at heq
  | opener ht => exact ⟨⟨hm.1, hm.2.1, hm.2.2.1, fun h ↦ absurd rfl h⟩, by simp⟩
  | closer hc hne =>
    obtain ⟨hhead, hno, hd, -⟩ := hm
    refine ⟨trivial, ?_⟩
    rintro p ⟨⟩
    exact .inr ⟨hhead, hno, eq_idle_of_depth_eq_zero hd⟩
  | @innerHeader head body inner afterHeader hh =>
    -- one level deeper, with a body awaited
    have hdepth := (takes_after body.toList line).depth_eq
    rw [if_pos hh, hm.2.2.1] at hdepth
    have hpush := hm.push (fun _ ↦ ?_) hdepth
    · rw [hh] at hpush
      exact ⟨hpush, by simp⟩
    · rcases hc : isCloser line.text with - | -
      · rfl
      · exact absurd (hh.symm.trans (isHeader_of_isCloser hc)) (by decide)
  | @innerOpener head body inner ht =>
    -- the body that was awaited begins, at the same depth
    have hawaits := hm.2.2.2 (Nat.succ_ne_zero _)
    have hdepth := (takes_after body.toList line).depth_eq
    rw [ht, if_neg (by simp [hopener]), if_neg (by simp [hawaits]), hm.2.2.1] at hdepth
    have hpush := hm.push (fun h ↦ absurd h (Nat.succ_ne_zero _)) hdepth
    rw [ht, hopener] at hpush
    exact ⟨hpush, by simp⟩
  | @innerCloser head body inner afterHeader hc hne =>
    -- one level less deep
    have hawaits := hm.2.2.2 (Nat.succ_ne_zero _)
    have hh := isHeader_of_isCloser hc
    have hdepth := (takes_after body.toList line).depth_eq
    rw [if_neg (by simp [hh]), hm.2.2.1, hawaits, if_pos ⟨hc, hne, Nat.succ_ne_zero _⟩] at hdepth
    have hpush := hm.push (fun h ↦ absurd h (Nat.succ_ne_zero _)) (Nat.succ.inj hdepth)
    rw [hh] at hpush
    exact ⟨hpush, by simp⟩
  | @plain head body inner afterHeader hh hc =>
    have hdepth := (takes_after body.toList line).depth_eq
    rw [if_neg (by simp [hh]), if_neg (by simp [hc]), hm.2.2.1] at hdepth
    have hpush := hm.push (fun _ ↦ hc) hdepth
    rw [hh] at hpush
    exact ⟨hpush, by simp⟩

/-- Whatever the lines are, the two collectors agree. -/
theorem matches_after (lines : List SourceLine) : (after lines).Matches := by
  induction lines using List.reverseRecOn with
  | nil => trivial
  | append_singleton lines line ih => exact ((takes_after lines line).matches ih).1

/-- Whatever the lines are, every passage is whole. -/
theorem isWhole_of_mem_gather {p : Passage} {lines : List SourceLine}
    (h : p ∈ (idle.gather lines).1) : p.IsWhole := by
  obtain ⟨before, line, rest, -, hp⟩ := exists_push_of_mem h
  exact ((takes_after before line).matches (matches_after before)).2 p hp

/-- If no line is a closer outside blocks, no passage is. -/
theorem isCloser_head_of_mem_gather {p : Passage} {lines : List SourceLine} (hno : NoStray lines)
    (h : p ∈ (idle.gather lines).1) : isCloser p.head.text = false := by
  obtain ⟨before, line, rest, rfl, hp⟩ := exists_push_of_mem h
  rcases hc : isCloser p.head.text with - | -
  · rfl
  have hnot := isHeader_of_isCloser hc
  generalize hr : ((after before).push line).2 = r at hp
  have htakes := takes_after before line
  rw [hr] at htakes
  subst hp
  generalize hb : after before = c at htakes
  generalize after (before ++ [line]) = c' at htakes
  cases htakes with
  | alone hh => exact hc.symm.trans (hno before line rest rfl hb)
  | closer _ _ =>
    have hm := matches_after before
    rw [hb] at hm
    exact absurd (hm.1.symm.trans hnot) (by decide)

end Collector

/-! ### The trees of a body -/

/-- Whether a line is the marker. -/
def Line.isTwice : Line → Bool
  | twice => true
  | _ => false

namespace SourceLine

/-- Whether a line of a body is part of its trees: neither a closer nor the marker. -/
def isBuilt (l : SourceLine) : Bool :=
  !Line.isCloser l.text && !(Line.ofString l.text).isTwice

/-- A line, and whether it is a header. -/
def entry (l : SourceLine) : SourceLine × Bool := (l, (Line.ofString l.text).isHeader)

end SourceLine

namespace Tree

mutual

/-- The lines that a tree was built from, in order, and whether each is that of a block. -/
def outline : Tree → List (SourceLine × Bool)
  | statement _ line _ => [(line, false)]
  | block _ line _ body => (line, true) :: outlineAll body
  | twice _ _ inner => outline inner

/-- The lines that trees were built from, in order. -/
def outlineAll : List Tree → List (SourceLine × Bool)
  | [] => []
  | t :: rest => outline t ++ outlineAll rest

end

/-- Only a line that repeats the next one makes no tree by itself. -/
theorem ofPassage?_eq_none_iff {p : Passage} {next : Nat} :
    ofPassage? p next = none ↔ Line.ofString p.head.text = .twice := by
  rw [ofPassage?]
  rcases Line.ofString p.head.text with s | header | - <;> simp

/-- Repeating a tree does not change its outline. -/
theorem outline_repeated (t : Tree) (twice? : Bool) (next : Nat) :
    (t.repeated twice? next).1.outline = t.outline := by
  rcases twice? with - | -
  · rfl
  · rfl

/-- Only closers are left out, so of the lines that build something none is. -/
theorem filter_keptBehind (before lines : List SourceLine) :
    (Collector.keptBehind before lines).filter SourceLine.isBuilt =
      lines.filter SourceLine.isBuilt := by
  induction lines generalizing before with
  | nil => rfl
  | cons line rest ih =>
    rw [Collector.keptBehind]
    split
    case isTrue h =>
      have hbuilt : line.isBuilt = false := by simp [SourceLine.isBuilt, h.isCloser]
      rw [ih, List.filter_cons_of_neg (by simp [hbuilt])]
    case isFalse => rw [List.filter_cons, List.filter_cons, ih]

/-- Building loses no line of a body that closes what it opens, apart from closers and markers,
and makes a block of every header and a statement of every other line. The three parts are proved
together, along the recursion of the functions that build. -/
theorem outline_build :
    (∀ p next, ∀ t next', ofPassage? p next = some (t, next') → p.IsWhole →
      t.outline = (p.head :: p.body.filter SourceLine.isBuilt).map SourceLine.entry) ∧
    (∀ lines next, Collector.Closed lines →
      outlineAll (ofLines lines next).1 = (lines.filter SourceLine.isBuilt).map SourceLine.entry) ∧
    ∀ passages twice? next,
      (∀ p ∈ passages, p.IsWhole ∧ Line.isCloser p.head.text = false) →
      outlineAll (ofPassages passages twice? next).1 =
        ((passages.flatMap Passage.lines).filter SourceLine.isBuilt).map SourceLine.entry := by
  apply ofPassage?.mutual_induct
  · -- the marker is no tree
    intro p next hp t next' h
    simp [ofPassage?, hp] at h
  · -- a statement has no body
    intro p next s hp t next' h hwhole
    rw [ofPassage?, hp] at h
    obtain ⟨rfl, rfl⟩ := h
    rcases hwhole with ⟨hh, hbody⟩ | ⟨hh, -⟩
    · simp [hbody, outline, SourceLine.entry, hh]
    · rw [hp] at hh
      cases hh
  · -- a block is followed by its body
    intro p next header hp body bodyNext hbody ih t next' h hwhole
    rw [ofPassage?, hp] at h
    simp only [hbody, Option.some.injEq, Prod.mk.injEq] at h
    obtain ⟨rfl, rfl⟩ := h
    have hh : (Line.ofString p.head.text).isHeader = true := by rw [hp]; rfl
    rcases hwhole with ⟨hnot, -⟩ | ⟨-, hclosed⟩
    · exact absurd (hh.symm.trans hnot) (by decide)
    · have hlines := ih hclosed
      rw [hbody] at hlines
      rw [outline, hlines, List.map_cons, SourceLine.entry, hh]
  · -- the lines of a body are those of its passages, apart from what is left out
    intro lines next ih hclosed
    rw [ofLines, ih fun p hp ↦ ⟨Collector.isWhole_of_mem_gather hp,
      Collector.isCloser_head_of_mem_gather hclosed.noStray hp⟩]
    have hgather := Collector.flatMap_gather [] lines
    rw [show Collector.after [] = .idle from rfl,
      show (Collector.idle.gather lines).2 = .idle from hclosed.after_eq, Collector.held,
      List.append_nil, List.nil_append] at hgather
    rw [Passage.ofLines, hgather, filter_keptBehind]
  · intro twice? next _
    rw [ofPassages]
    rfl
  · -- a marker is left out
    intro twice? next p rest hp _ ih h
    have htwice := ofPassage?_eq_none_iff.1 hp
    have hbuilt : p.head.isBuilt = false := by simp [SourceLine.isBuilt, htwice, Line.isTwice]
    have hbody : p.body = [] := by
      rcases (h p List.mem_cons_self).1 with ⟨-, hbody⟩ | ⟨hh, -⟩
      · exact hbody
      · rw [htwice] at hh
        cases hh
    rw [ofPassages, hp]
    show outlineAll (ofPassages rest true next).1 = _
    rw [ih fun q hq ↦ h q (List.mem_cons_of_mem p hq), List.flatMap_cons, Passage.lines, hbody,
      List.singleton_append, List.filter_cons_of_neg (by simp [hbuilt])]
  · -- a tree, possibly run twice, and the others behind it
    intro twice? next p rest t tNext hp t' next' hrepeated trees last hrest iht ihrest h
    obtain ⟨hwhole, hcloser⟩ := h p List.mem_cons_self
    have ht : t'.outline = t.outline := by
      rw [← outline_repeated t twice? tNext, hrepeated]
    have hbuilt : p.head.isBuilt = true := by
      rcases hl : Line.ofString p.head.text with s | header | -
      · simp [SourceLine.isBuilt, hcloser, hl, Line.isTwice]
      · simp [SourceLine.isBuilt, hcloser, hl, Line.isTwice]
      · rw [ofPassage?_eq_none_iff.2 hl] at hp
        cases hp
    have htrees := ihrest fun q hq ↦ h q (List.mem_cons_of_mem p hq)
    rw [hrest] at htrees
    rw [ofPassages, hp]
    simp only [hrepeated, hrest]
    rw [outlineAll, ht, iht t tNext hp hwhole, htrees, List.flatMap_cons, List.filter_append,
      Passage.lines, List.filter_cons_of_pos hbuilt, List.map_append]

end Tree

/-! ### Conservation -/

namespace Collector

open Line

/-- Whatever the lines are, none is lost, none is counted twice and none changes its meaning on the
way to the trees. The number of open blocks never falls below zero. The passages, with what is held
of an open block behind them, are the lines without the openers and closers of the outermost blocks.
Every passage is a line that is no header, or a header with a body that, gathered anew, has no
closer outside its blocks and leaves no block open. And the tree of a passage has a block for each
header of the body and a statement for each of its other lines, at every level and in order, apart
from closers and markers. -/
theorem gather_conserves (lines : List SourceLine) :
    ((after []).depth = 0 ∧ ∀ (before : List SourceLine) (line : SourceLine),
      if (ofString line.text).isHeader = true then
        (after (before ++ [line])).depth = (after before).depth + 1
      else if isCloser line.text = true ∧ ¬ Opens before line ∧ (after before).depth ≠ 0 then
        (after (before ++ [line])).depth + 1 = (after before).depth
      else (after (before ++ [line])).depth = (after before).depth) ∧
    (idle.gather lines).1.flatMap Passage.lines ++ (idle.gather lines).2.held =
      keptBehind [] lines ∧
    ∀ p ∈ (idle.gather lines).1, p.IsWhole ∧ ∀ next,
      (ofString p.head.text = .twice ∧ Tree.ofPassage? p next = none) ∨
      ∃ t next', Tree.ofPassage? p next = some (t, next') ∧
        t.outline = (p.head :: p.body.filter SourceLine.isBuilt).map SourceLine.entry := by
  refine ⟨⟨rfl, depth_after_concat⟩, flatMap_gather [] lines, fun p hp ↦ ?_⟩
  have hwhole := isWhole_of_mem_gather hp
  refine ⟨hwhole, fun next ↦ ?_⟩
  rcases h : Tree.ofPassage? p next with - | ⟨t, next'⟩
  · exact .inl ⟨Tree.ofPassage?_eq_none_iff.1 h, rfl⟩
  · exact .inr ⟨t, next', rfl, Tree.outline_build.1 p next t next' h hwhole⟩

/-- A closer before all blocks, a block with an opener around one without, and a block that is left
open. -/
theorem gather_conserves_malformed :
    let lines : List SourceLine := [⟨1, "학"⟩, ⟨2, "학범이는비만이아님"⟩, ⟨3, "학"⟩,
      ⟨4, "학범이는비만이아님"⟩, ⟨5, "야오루폐"⟩, ⟨6, "학"⟩, ⟨7, "귤한봉지"⟩, ⟨8, "학범이는비만이아님"⟩]
    let p : Passage :=
      ⟨⟨2, "학범이는비만이아님"⟩, [⟨4, "학범이는비만이아님"⟩, ⟨5, "야오루폐"⟩, ⟨6, "학"⟩]⟩
    p ∈ (idle.gather lines).1 ∧ p.IsWhole ∧
      (idle.gather lines).1.flatMap Passage.lines ++ (idle.gather lines).2.held =
        [⟨1, "학"⟩, ⟨2, "학범이는비만이아님"⟩, ⟨4, "학범이는비만이아님"⟩, ⟨5, "야오루폐"⟩, ⟨6, "학"⟩,
          ⟨8, "학범이는비만이아님"⟩] := by
  intro lines p
  have hmem : p ∈ (idle.gather lines).1 := by decide +kernel
  have h := gather_conserves lines
  refine ⟨hmem, (h.2.2 p hmem).1, ?_⟩
  rw [h.2.1]
  decide +kernel

end Collector

end Haklang

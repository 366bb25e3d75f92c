import Haklang.Tree

/-!
# The grammar of blocks

A program is a forest of items (`Item`): lines, blocks with a forest for a body, and items that a
marker makes run twice. A forest may be written in many ways (`Written`): the opener after a header
may be left out, and any of the four closers ends a block. Gathering and building the lines gives
the trees of the forest back, whichever way it was written.

`학` is opener and closer alike, so one spelling is excluded: an empty body that has no opener and
is closed by `학`, where that line would be read as the opener.

Two facts carry the induction. Inside a block the lines of a forest only pile up: they leave the
number of open blocks as it was, because every header that they hold is met by its own closer
(`gather_inside`). Outside all blocks they make up whole passages, and the passages give the trees
of the forest (`ofPassages_gather`); the body of a passage is again the lines of a forest, gathered
from a fresh start.

A marker is remembered and no more, so a run of markers before an item counts as one
(`Item.trees`).
-/

namespace Haklang

/-- What a program is made of, apart from how it is written. -/
inductive Item where
  /-- A line that is a statement. -/
  | plain (line : SourceLine) (s : Statement)
  /-- A block: its header, and the items of its body. -/
  | block (line : SourceLine) (h : Header) (body : List Item)
  /-- An item behind the marker that makes it run twice. -/
  | marked (item : Item)

namespace Item

/-- Whether a marker stands before the item. -/
def isMarked : Item → Bool
  | marked _ => true
  | _ => false

mutual

/-- The tree of an item, numbered from `next`, and the next free number. -/
def tree : Item → Nat → Tree × Nat
  | plain line s, next => (.statement next line s, next + 1)
  | block line h body, next =>
    let (body, next) := trees body next
    (.block next line (.ofHeader h) body, next + 1)
  | marked item, next =>
    if item.isMarked then item.tree next
    else
      let (t, next) := item.tree next
      (.twice next t.line t, next + 1)

/-- The trees of a forest in order, numbered from `next`, and the next free number. -/
def trees : List Item → Nat → List Tree × Nat
  | [], next => ([], next)
  | item :: rest, next =>
    let (t, next) := item.tree next
    let (trees, next) := trees rest next
    (t :: trees, next)

end

end Item

/-- The ways to write a forest as lines. -/
inductive Written : List Item → List SourceLine → Prop where
  /-- Nothing is written as nothing. -/
  | nil : Written [] []
  /-- A statement is written as its line, which is no closer. -/
  | plain {line : SourceLine} {s : Statement} {rest : List Item} {lines : List SourceLine}
      (hs : Line.ofString line.text = .statement s) (hcloser : Line.isCloser line.text = false)
      (hrest : Written rest lines) : Written (.plain line s :: rest) (line :: lines)
  /-- A block is written as its header, an opener if one is wanted, the lines of its body and one
  of the closers. The opener may not be left out before the closer that looks like it. -/
  | block {line closer : SourceLine} {h : Header} {body rest : List Item}
      {opener inner lines : List SourceLine}
      (hh : Line.ofString line.text = .header h)
      (hopener : opener = [] ∨ ∃ l : SourceLine, l.text = Line.bodyOpener ∧ opener = [l])
      (hbody : Written body inner) (hcloser : Line.isCloser closer.text = true)
      (hne : ¬ (opener = [] ∧ inner = [] ∧ closer.text = Line.bodyOpener))
      (hrest : Written rest lines) :
      Written (.block line h body :: rest) (line :: (opener ++ inner ++ closer :: lines))
  /-- An item that runs twice is written behind the marker. -/
  | marked {marker : SourceLine} {item : Item} {rest : List Item} {lines : List SourceLine}
      (hm : Line.ofString marker.text = .twice) (hitem : Written (item :: rest) lines) :
      Written (.marked item :: rest) (marker :: lines)

/-! ### What a line can be -/

namespace Line

theorem isCloser_iff {text : String} : isCloser text = true ↔
    text = "귤한봉지" ∨ text = "학" ∨ text = "\x7d귤한봉지" ∨ text = "\x7d그챼" := by
  simp [isCloser, closers]

theorem isCloser_bodyOpener : isCloser bodyOpener = true := isCloser_iff.2 (.inr (.inl rfl))

/-- Whether the line is a statement. -/
def isStatement : Line → Bool
  | statement _ => true
  | _ => false

/-- Outside blocks a closer would be a statement. -/
theorem isStatement_of_isCloser {text : String} (h : isCloser text = true) :
    (ofString text).isStatement = true := by
  obtain rfl | rfl | rfl | rfl := isCloser_iff.1 h <;> decide +kernel

/-- A closer is no header. -/
theorem isHeader_of_isCloser {text : String} (h : isCloser text = true) :
    (ofString text).isHeader = false := by
  have hs := isStatement_of_isCloser h
  cases hl : ofString text with
  | header _ => rw [hl] at hs; exact nomatch hs
  | statement _ => rfl
  | twice => rfl

/-- The marker is no closer. -/
theorem isCloser_of_twice {text : String} (h : ofString text = .twice) :
    isCloser text = false := by
  rcases hc : isCloser text with - | -
  · rfl
  · have hs := isStatement_of_isCloser hc
    rw [h] at hs
    exact nomatch hs

theorem ofString_marker : ofString "두그릇" = .twice := by rfl

theorem beq_bodyOpener_of_isCloser {text : String} (h : isCloser text = false) :
    (text == bodyOpener) = false := by
  rw [beq_eq_false_iff_ne]
  rintro rfl
  exact nomatch h.symm.trans isCloser_bodyOpener

theorem beq_bodyOpener_of_isHeader {text : String} (h : (ofString text).isHeader = true) :
    (text == bodyOpener) = false := by
  rw [beq_eq_false_iff_ne]
  rintro rfl
  exact nomatch h.symm.trans (isHeader_of_isCloser isCloser_bodyOpener)

end Line

/-! ### Gathering -/

namespace Collector

open Line

variable {line head : SourceLine} {body : Array SourceLine} {inner : Nat} {afterHeader : Bool}

/-- A line that is neither header nor closer is kept, whatever was before it. -/
theorem push_inside_of_not (hh : (ofString line.text).isHeader = false)
    (hc : isCloser line.text = false) :
    (inside head body inner afterHeader).push line =
      (inside head (body.push line) inner false, none) := by
  simp [push, beq_bodyOpener_of_isCloser hc, hh, hc]

/-- A header is kept and opens an inner block. -/
theorem push_inside_of_isHeader (hh : (ofString line.text).isHeader = true) :
    (inside head body inner afterHeader).push line =
      (inside head (body.push line) (inner + 1) true, none) := by
  simp [push, beq_bodyOpener_of_isHeader hh, hh]

/-- The opener of an inner block is kept. -/
theorem push_inside_of_opener (ht : line.text = bodyOpener) :
    (inside head body (inner + 1) true).push line =
      (inside head (body.push line) (inner + 1) false, none) := by
  simp [push, ht]

/-- The closer of an inner block is kept, unless it is taken for an opener. -/
theorem push_inside_of_isCloser (hc : isCloser line.text = true)
    (hne : ¬ (afterHeader = true ∧ line.text = bodyOpener)) :
    (inside head body (inner + 1) afterHeader).push line =
      (inside head (body.push line) inner false, none) := by
  simp [push, hne, isHeader_of_isCloser hc, hc]

/-- The closer of the outermost block completes the passage. -/
theorem push_inside_zero_of_isCloser (hc : isCloser line.text = true)
    (hne : ¬ (afterHeader = true ∧ line.text = bodyOpener)) :
    (inside head body 0 afterHeader).push line =
      (idle, some { head := head, body := body.toList }) := by
  simp [push, hne, isHeader_of_isCloser hc, hc]

theorem gather_cons (c : Collector) (line : SourceLine) (lines : List SourceLine) :
    c.gather (line :: lines) =
      ((c.push line).2.toList ++ ((c.push line).1.gather lines).1,
        ((c.push line).1.gather lines).2) := rfl

/-- Lines that complete nothing only move the collector. -/
theorem gather_append_of_nil {c c' : Collector} {lines : List SourceLine}
    (h : c.gather lines = ([], c')) (more : List SourceLine) :
    c.gather (lines ++ more) = c'.gather more := by
  induction lines generalizing c with
  | nil =>
    cases h
    rfl
  | cons line lines ih =>
    rw [gather_cons, Prod.mk.injEq, List.append_eq_nil_iff] at h
    obtain ⟨⟨hnone, hnil⟩, rfl⟩ := h
    rw [List.cons_append, gather_cons, hnone, List.nil_append, ih (Prod.ext hnil rfl)]

/-- The opener of an inner block is kept, if there is one. -/
theorem gather_opener {opener : List SourceLine}
    (h : opener = [] ∨ ∃ l : SourceLine, l.text = bodyOpener ∧ opener = [l]) :
    (inside head body (inner + 1) true).gather opener =
      ([], inside head (body ++ opener.toArray) (inner + 1) opener.isEmpty) := by
  obtain rfl | ⟨l, hl, rfl⟩ := h
  · simp [gather]
  · simp [push_inside_of_opener hl, gather]

/-- The opener of the outermost block is dropped, if there is one. -/
theorem gather_opener_zero {opener : List SourceLine}
    (h : opener = [] ∨ ∃ l : SourceLine, l.text = bodyOpener ∧ opener = [l]) :
    (inside head body 0 true).gather opener = ([], inside head body 0 opener.isEmpty) := by
  obtain rfl | ⟨l, hl, rfl⟩ := h
  · simp [gather]
  · simp [push, hl, gather]

/-- Inside a block the lines of a forest only pile up. The number of open blocks comes out as it
went in, and only if there are no lines at all a header may still be the line before. -/
theorem gather_inside {f : List Item} {lines : List SourceLine} (h : Written f lines)
    (head : SourceLine) (body : Array SourceLine) (inner : Nat) (afterHeader : Bool) :
    (inside head body inner afterHeader).gather lines =
      ([], inside head (body ++ lines.toArray) inner (afterHeader && lines.isEmpty)) := by
  induction h generalizing body inner afterHeader with
  | nil => simp [gather]
  | plain hs hcloser _ ih =>
    rw [gather_cons, push_inside_of_not (by rw [hs]; rfl) hcloser, ih]
    simp
  | @block line closer h itemBody rest opener lines' more hh hopener _ hcloser hne _ ihbody ih =>
    have hheader := @push_inside_of_isHeader line head body inner afterHeader (by rw [hh]; rfl)
    have hupto : (inside head (body.push line) (inner + 1) true).gather (opener ++ lines') =
        ([], inside head (body.push line ++ opener.toArray ++ lines'.toArray) (inner + 1)
          (opener.isEmpty && lines'.isEmpty)) := by
      rw [gather_append_of_nil (gather_opener hopener), ihbody]
    have hnot : ¬ ((opener.isEmpty && lines'.isEmpty) = true ∧ closer.text = bodyOpener) := by
      simpa [and_assoc] using hne
    rw [gather_cons, hheader, gather_append_of_nil hupto, gather_cons,
      push_inside_of_isCloser hcloser hnot, ih]
    simp
  | marked hm _ ih =>
    rw [gather_cons, push_inside_of_not (by rw [hm]; rfl) (isCloser_of_twice hm), ih]
    simp

end Collector

/-! ### Building -/

/-- The forest whose first item runs twice, if a marker stands before it. -/
def Item.markFirst : Bool → List Item → List Item
  | true, item :: rest => .marked item :: rest
  | _, f => f

namespace Tree

open Collector

/-- One passage more, built into the tree of one item more. -/
theorem ofPassages_cons {p : Passage} {passages : List Passage} {item : Item} {f : List Item}
    {next : Nat} (hitem : item.isMarked = false) (hp : ofPassage? p next = some (item.tree next))
    (hrest : ∀ next, ofPassages passages false next = Item.trees f next) (twice? : Bool) :
    ofPassages (p :: passages) twice? next =
      Item.trees (Item.markFirst twice? (item :: f)) next := by
  rw [ofPassages, hp]
  cases twice? with
  | false => simp [repeated, hrest, Item.markFirst, Item.trees]
  | true => simp [repeated, hrest, Item.markFirst, Item.trees, Item.tree, hitem]

/-- The passages of a written forest are built into its trees. A marker that was met before counts
for the first item. -/
theorem ofPassages_gather {f : List Item} {lines : List SourceLine} (h : Written f lines)
    (twice? : Bool) (next : Nat) :
    ofPassages (idle.gather lines).1 twice? next = Item.trees (Item.markFirst twice? f) next := by
  induction h generalizing twice? next with
  | nil => cases twice? <;> simp [gather, ofPassages, Item.markFirst, Item.trees]
  | @plain line s rest lines hs _ _ ih =>
    have hidle : idle.push line = (idle, some { head := line }) := by simp [push, hs, Line.isHeader]
    have hp : ofPassage? { head := line } next = some ((Item.plain line s).tree next) := by
      rw [ofPassage?, hs, Item.tree]
    rw [gather_cons, hidle]
    exact ofPassages_cons rfl hp (ih false) twice?
  | @block line closer h body rest opener inner lines hh hopener hbody hcloser hne _ ihbody ih =>
    have hidle : idle.push line = (inside line #[] 0 true, none) := by
      simp [push, hh, Line.isHeader]
    -- all lines up to the closer go into the passage
    have hupto : (inside line #[] 0 true).gather (opener ++ inner) =
        ([], inside line inner.toArray 0 (opener.isEmpty && inner.isEmpty)) := by
      rw [gather_append_of_nil (gather_opener_zero hopener), gather_inside hbody]
      simp
    have hnot : ¬ ((opener.isEmpty && inner.isEmpty) = true ∧ closer.text = Line.bodyOpener) := by
      simpa [and_assoc] using hne
    have hp : ofPassage? { head := line, body := inner } next =
        some ((Item.block line h body).tree next) := by
      rw [ofPassage?, hh, Item.tree, ofLines, Passage.ofLines, ihbody]
      rfl
    rw [gather_cons, hidle, gather_append_of_nil hupto, gather_cons,
      push_inside_zero_of_isCloser hcloser hnot]
    exact ofPassages_cons rfl hp (ih false) twice?
  | @marked marker item rest lines hm _ ih =>
    have hidle : idle.push marker = (idle, some { head := marker }) := by
      simp [push, hm, Line.isHeader]
    have hp : ofPassage? { head := marker } next = none := by rw [ofPassage?, hm]
    rw [gather_cons, hidle]
    show ofPassages ({ head := marker } :: (idle.gather lines).1) twice? next = _
    rw [ofPassages, hp]
    show ofPassages (idle.gather lines).1 true next = _
    rw [ih]
    -- a marker before a marked item changes nothing
    cases twice? <;> simp [Item.markFirst, Item.trees, Item.tree, Item.isMarked]

/-- However a forest is written, gathering and building its lines gives the trees of the forest, in
order and nested as they were, each with its own line. A run of markers before an item makes one
tree that runs twice. -/
theorem ofLines_of_written {f : List Item} {lines : List SourceLine} (h : Written f lines)
    (next : Nat) : ofLines lines next = Item.trees f next := by
  rw [ofLines, Passage.ofLines, ofPassages_gather h]
  rfl

/-- A block with an opener around a marked block that has none and is closed by the word that also
opens bodies. -/
theorem ofLines_of_written_nested :
    Written
      [.block ⟨1, "학범이는비만이아님"⟩ .elseBlock
        [.marked (.block ⟨4, "학범이는비만이아님"⟩ .elseBlock [.plain ⟨5, "야오루폐"⟩ (.truth true)])]]
      [⟨1, "학범이는비만이아님"⟩, ⟨2, "학"⟩, ⟨3, "두그릇"⟩, ⟨4, "학범이는비만이아님"⟩, ⟨5, "야오루폐"⟩, ⟨6, "학"⟩,
        ⟨7, "\x7d그챼"⟩] ∧
    ofLines
      [⟨1, "학범이는비만이아님"⟩, ⟨2, "학"⟩, ⟨3, "두그릇"⟩, ⟨4, "학범이는비만이아님"⟩, ⟨5, "야오루폐"⟩, ⟨6, "학"⟩,
        ⟨7, "\x7d그챼"⟩] 0 =
      ([.block 3 ⟨1, "학범이는비만이아님"⟩ .elseBlock
        [.twice 2 ⟨4, "학범이는비만이아님"⟩
          (.block 1 ⟨4, "학범이는비만이아님"⟩ .elseBlock
            [.statement 0 ⟨5, "야오루폐"⟩ (.truth true)])]], 4) := by
  have hheader : Line.ofString "학범이는비만이아님" = .header .elseBlock := rfl
  have hinner : Written
      [.marked (.block ⟨4, "학범이는비만이아님"⟩ .elseBlock [.plain ⟨5, "야오루폐"⟩ (.truth true)])]
      [⟨3, "두그릇"⟩, ⟨4, "학범이는비만이아님"⟩, ⟨5, "야오루폐"⟩, ⟨6, "학"⟩] :=
    .marked Line.ofString_marker (@Written.block ⟨4, "학범이는비만이아님"⟩ ⟨6, "학"⟩ _ _ [] [] _ []
      hheader (.inl rfl) (.plain rfl rfl .nil) rfl (by simp) .nil)
  have hwritten := @Written.block ⟨1, "학범이는비만이아님"⟩ ⟨7, "\x7d그챼"⟩ _ _ [] [⟨2, "학"⟩] _ []
    hheader (.inr ⟨_, rfl, rfl⟩) hinner rfl (by simp) .nil
  exact ⟨hwritten, ofLines_of_written hwritten 0⟩

/-- Two markers before a statement do not make it run twice twice: the tree inside is the statement
itself. -/
theorem ofLines_marker_marker :
    Written [.marked (.marked (.plain ⟨3, "야오루폐"⟩ (.truth true)))]
      [⟨1, "두그릇"⟩, ⟨2, "두그릇"⟩, ⟨3, "야오루폐"⟩] ∧
    ofLines [⟨1, "두그릇"⟩, ⟨2, "두그릇"⟩, ⟨3, "야오루폐"⟩] 0 =
      ([.twice 1 ⟨3, "야오루폐"⟩ (.statement 0 ⟨3, "야오루폐"⟩ (.truth true))], 2) ∧
    ofLines [⟨1, "두그릇"⟩, ⟨2, "두그릇"⟩, ⟨3, "야오루폐"⟩] 0 ≠
      ([.twice 2 ⟨3, "야오루폐"⟩
        (.twice 1 ⟨3, "야오루폐"⟩ (.statement 0 ⟨3, "야오루폐"⟩ (.truth true)))], 3) := by
  have hwritten : Written [.marked (.marked (.plain ⟨3, "야오루폐"⟩ (.truth true)))]
      [⟨1, "두그릇"⟩, ⟨2, "두그릇"⟩, ⟨3, "야오루폐"⟩] :=
    .marked Line.ofString_marker (.marked Line.ofString_marker (.plain rfl rfl .nil))
  have hone : ofLines [⟨1, "두그릇"⟩, ⟨2, "두그릇"⟩, ⟨3, "야오루폐"⟩] 0 =
      ([.twice 1 ⟨3, "야오루폐"⟩ (.statement 0 ⟨3, "야오루폐"⟩ (.truth true))], 2) := by
    rw [ofLines, Passage.ofLines, ofPassages_gather hwritten]
    rfl
  refine ⟨hwritten, hone, ?_⟩
  rw [hone]
  intro h
  exact absurd (congrArg Prod.snd h) (by decide)

end Tree

end Haklang

import Haklang.Proofs.Session.Renumbered
import Haklang.Proofs.Text.Scan
import Mathlib.Logic.Relation
import Mathlib.Order.Monotone.Basic

/-!
# Layout does not matter

The layout of a source is what a session drops: blank lines, lines of the word that programs start
with, and blanks at the ends of lines. What is left are the lines that count (`Layout.counted`), and
a session takes these and nothing else (`Layout.feedAll_eq_counted`). A change of the layout
(`Layout.Edit`) leaves the same lines, under other numbers, and the numbers keep their order
(`Layout.Edit.exists_moves`). So it is the other numbers that remain of a change of the layout, and
they have no influence on a run (`Session.Renumbered.feedEach`).

The lines of a source are those of `Console.lines`, without their ends. A session takes the source
apart at line feeds alone, which comes to the same but for blanks (`Layout.counted_lines`).
-/

open Relation (ReflTransGen)

namespace Haklang

namespace Layout

/-! ### Lines that count -/

/-- Whether a session drops a line, given without the blanks at its ends. -/
abbrev Drops (text : String) : Prop := text = "" ∨ text = Line.sentinel

/-- The lines that a session does not drop, without the blanks at their ends; the first line has the
given number. -/
def counted : Nat → List String → List SourceLine
  | _, [] => []
  | number, text :: rest =>
    if Drops (Text.trimmed text) then counted (number + 1) rest
    else { number, text := Text.trimmed text } :: counted (number + 1) rest

/-- Trimming once is enough. -/
theorem trimmed_trimmed (s : String) : Text.trimmed (Text.trimmed s) = Text.trimmed s := by
  rw [Text.trimmed, Text.trimmed, String.toList_ofList, Text.trim_trim]

/-- A session takes the lines that count. -/
theorem feedAll_eq_counted (s : Session) (number : Nat) (texts : List String) :
    s.feedAll number texts = s.feedEach (counted number texts) := by
  induction texts generalizing s number with
  | nil => rfl
  | cons text rest ih =>
    rw [Session.feedAll, counted]
    by_cases hdrops : Drops (Text.trimmed text)
    · have hfeed : s.feed text number = (.ok (), s) := by
        unfold Session.feed
        dsimp only
        rw [if_pos hdrops]
      rw [if_pos hdrops, hfeed]
      exact ih s (number + 1)
    · have hfeed : s.feed (Text.trimmed text) number = s.feed text number := by
        unfold Session.feed
        rw [trimmed_trimmed]
      rw [if_neg hdrops, Session.feedEach, hfeed]
      rcases s.feed text number with ⟨_ | _, s'⟩
      · rfl
      · exact ih s' (number + 1)

section Counted

variable (number : Nat) (lines lines' : List String)

/-- The lines that count of two lists in a row, the second one numbered on. -/
theorem counted_append : counted number (lines ++ lines') =
    counted number lines ++ counted (number + lines.length) lines' := by
  induction lines generalizing number with
  | nil => rfl
  | cons line rest ih =>
    rw [List.cons_append, counted, counted, ih, List.length_cons,
      show number + 1 + rest.length = number + (rest.length + 1) by omega]
    split <;> rfl

/-- A line that is dropped takes a number and leaves nothing. -/
theorem counted_cons_of_drops {line : String} (h : Drops (Text.trimmed line)) :
    counted number (line :: lines) = counted (number + 1) lines := by rw [counted, if_pos h]

/-- Only what is left of the lines without the blanks at their ends counts. -/
theorem counted_congr {lines lines' : List String}
    (h : lines.map Text.trimmed = lines'.map Text.trimmed) :
    counted number lines = counted number lines' := by
  induction lines generalizing lines' number with
  | nil => rw [List.map_eq_nil_iff.1 h.symm]
  | cons line rest ih =>
    obtain ⟨line', rest', rfl, hline, hrest⟩ := List.map_eq_cons_iff.1 h.symm
    rw [counted, counted, hline, ih _ hrest.symm]

/-- The numbers go up from that of the first line. -/
theorem le_number_of_mem_counted {line : SourceLine} (h : line ∈ counted number lines) :
    number ≤ line.number ∧ line.number < number + lines.length := by
  induction lines generalizing number with
  | nil => cases h
  | cons text rest ih =>
    rw [counted] at h
    split at h
    · obtain ⟨hle, hlt⟩ := ih _ h
      exact ⟨by omega, by rw [List.length_cons]; omega⟩
    · rcases List.mem_cons.1 h with rfl | h
      · exact ⟨le_rfl, by rw [List.length_cons]; exact Nat.lt_add_of_pos_right (Nat.succ_pos _)⟩
      · obtain ⟨hle, hlt⟩ := ih _ h
        exact ⟨by omega, by rw [List.length_cons]; omega⟩

/-- Lines that begin one later have numbers that are higher by one. -/
theorem counted_succ : counted (number + 1) lines =
    (counted number lines).map (·.renumber (· + 1)) := by
  induction lines generalizing number with
  | nil => rfl
  | cons line rest ih =>
    rw [counted, counted, ih]
    split <;> rfl

/-- Lines that are dropped do not count, wherever they stand. -/
theorem counted_of_drops {lines : List String} (h : ∀ line ∈ lines, Drops (Text.trimmed line)) :
    counted number lines = [] := by
  induction lines generalizing number with
  | nil => rfl
  | cons line rest ih =>
    obtain ⟨hline, hrest⟩ := List.forall_mem_cons.1 h
    rw [counted_cons_of_drops _ _ hline, ih _ hrest]

end Counted

/-! ### The first line that is not blank -/

/-- The first line that is not blank, without the blanks at its ends. -/
def firstLine? (lines : List String) : Option (List Char) :=
  (lines.map fun line ↦ Text.trim line.toList).find? (· ≠ [])

/-- Whether a program begins as it has to is seen from its first line that is not blank. -/
theorem hasSentinel_congr {lines lines' : List String} (h : firstLine? lines = firstLine? lines') :
    Session.hasSentinel lines = Session.hasSentinel lines' := by
  unfold firstLine? at h
  rw [Session.hasSentinel, h]
  rfl

/-- The first line of two lists is that of the first one, if it has any. -/
theorem firstLine?_append (lines lines' : List String) :
    firstLine? (lines ++ lines') = (firstLine? lines).or (firstLine? lines') := by
  rw [firstLine?, List.map_append, List.find?_append]
  rfl

/-- Blanks around lines do not matter for which line comes first. -/
theorem firstLine?_congr {lines lines' : List String}
    (h : lines.map Text.trimmed = lines'.map Text.trimmed) :
    firstLine? lines = firstLine? lines' := by
  have htrim (lines : List String) : (lines.map fun line ↦ Text.trim line.toList) =
      (lines.map Text.trimmed).map String.toList := by
    rw [List.map_map]
    exact List.map_congr_left fun line _ ↦ String.toList_ofList.symm
  rw [firstLine?, htrim, h, ← htrim, firstLine?]

/-- A blank line is not the first one. -/
theorem firstLine?_cons_of_blank {line : String} (h : Text.trimmed line = "")
    (rest : List String) : firstLine? (line :: rest) = firstLine? rest := by
  have hline : Text.trim line.toList = [] := String.ofList_injective h
  rw [firstLine?, List.map_cons, hline]
  rfl

/-- There is a first line if there is a line that is not blank. -/
theorem isSome_firstLine? {lines : List String} (h : ∃ line ∈ lines, Text.trimmed line ≠ "") :
    (firstLine? lines).isSome = true := by
  obtain ⟨line, hmem, hline⟩ := h
  rw [firstLine?, List.find?_isSome]
  refine ⟨_, List.mem_map_of_mem hmem, ?_⟩
  simpa using fun hnil ↦ hline (congrArg String.ofList hnil)

/-! ### Ends of lines -/

/-- A carriage return at the end of a line is a blank. -/
theorem trimmed_dropEnd (cs : List Char) :
    Text.trimmed (String.ofList (if cs.getLast? = some '\r' then cs.dropLast else cs)) =
      Text.trimmed (String.ofList cs) := by
  split
  · next h =>
    have hcs : cs.dropLast ++ ['\r'] = cs := List.dropLast_append_getLast? _ h
    have hblank : ∀ c ∈ ['\r'], Text.isBlank c = true := List.forall_mem_singleton.2 rfl
    rw [Text.trimmed, Text.trimmed, String.toList_ofList, String.toList_ofList,
      ← Text.trim_append_of_blank _ hblank, hcs]
  · rfl

/-- The lines of a text are those between its line feeds, but for blanks at their ends and an empty
one behind the last line feed. -/
theorem exists_map_trimmed_lines (s : String) :
    ∃ blanks : List String, (∀ line ∈ blanks, line = "") ∧
      (Text.lines s).map Text.trimmed = (Console.lines s ++ blanks).map Text.trimmed := by
  obtain ⟨ended, last, hpieces⟩ : ∃ ended last, s.toList.splitOn '\n' = ended ++ [last] :=
    ⟨_, _, (List.dropLast_append_getLast (List.splitOn_ne_nil '\n' s.toList)).symm⟩
  have hended : ((ended.map fun cs ↦ if cs.getLast? = some '\r' then cs.dropLast else cs).map
      String.ofList).map Text.trimmed = (ended.map String.ofList).map Text.trimmed := by
    simp only [List.map_map]
    exact List.map_congr_left fun cs _ ↦ trimmed_dropEnd cs
  have hlines : Text.lines s = ended.map String.ofList ++ [String.ofList last] := by
    rw [Text.lines, hpieces, List.map_append, List.map_singleton]
  have hconsole : Console.lines s =
      (ended.map fun cs ↦ if cs.getLast? = some '\r' then cs.dropLast else cs).map String.ofList ++
        if last = [] then [] else [String.ofList last] := by
    unfold Console.lines
    simp only [hpieces, List.dropLast_concat, List.getLast?_concat, List.map_append]
    split <;> simp [Option.filter, *]
  by_cases hlast : last = []
  · refine ⟨[""], List.forall_mem_singleton.2 rfl, ?_⟩
    rw [hconsole, if_pos hlast, List.append_nil, List.map_append, hended, hlines, hlast,
      List.map_append]
  · refine ⟨[], nofun, ?_⟩
    rw [hconsole, if_neg hlast, List.append_nil, List.map_append, hended, hlines, List.map_append]

/-- The ends of lines are of no matter to what counts and to how the program begins. -/
theorem lines_eq (s : String) : counted 1 (Text.lines s) = counted 1 (Console.lines s) ∧
    Session.hasSentinel (Text.lines s) = Session.hasSentinel (Console.lines s) := by
  obtain ⟨blanks, hblanks, hmap⟩ := exists_map_trimmed_lines s
  have hdrops : ∀ line ∈ blanks, Text.trimmed line = "" := fun line hline ↦ by
    rw [hblanks line hline]
    rfl
  have hfirst : firstLine? blanks = none := by
    rw [firstLine?, List.find?_eq_none]
    simpa using fun line hline ↦ String.ofList_injective (hdrops line hline)
  constructor
  · rw [counted_congr 1 hmap, counted_append,
      counted_of_drops _ fun line hline ↦ .inl (hdrops line hline), List.append_nil]
  · refine hasSentinel_congr ?_
    rw [firstLine?_congr hmap, firstLine?_append, hfirst, Option.or_none]

/-! ### Changes of the layout -/

/-- One change of the layout. -/
inductive Edit : List String → List String → Prop where
  /-- A blank line is put in. -/
  | blank (before after : List String) {line : String} (h : Text.trimmed line = "") :
    Edit (before ++ after) (before ++ line :: after)
  /-- A line of the word that programs start with is put in behind a line that is not blank. -/
  | sentinel (before after : List String) {line : String} (h : Text.trimmed line = Line.sentinel)
    (hbefore : ∃ other ∈ before, Text.trimmed other ≠ "") :
    Edit (before ++ after) (before ++ line :: after)
  /-- A line gets other blanks at its ends. -/
  | trim (before after : List String) {line line' : String}
    (h : Text.trimmed line = Text.trimmed line') :
    Edit (before ++ line :: after) (before ++ line' :: after)

/-- Changes of the layout, one after the other. -/
abbrev Relaid : List String → List String → Prop := ReflTransGen Edit

/-- The program still begins as it does. -/
theorem Edit.hasSentinel_eq {lines lines' : List String} (h : Edit lines lines') :
    Session.hasSentinel lines' = Session.hasSentinel lines := by
  refine hasSentinel_congr ?_
  cases h with
  | blank before after h =>
    rw [firstLine?_append, firstLine?_append, firstLine?_cons_of_blank h]
  | sentinel before after h hbefore =>
    obtain ⟨first, hfirst⟩ := Option.isSome_iff_exists.1 (isSome_firstLine? hbefore)
    rw [firstLine?_append, firstLine?_append, hfirst]
    rfl
  | trim before after h =>
    refine firstLine?_congr ?_
    rw [List.map_append, List.map_append, List.map_cons, List.map_cons, h]

/-- The same lines count, under other numbers, and the numbers keep their order. -/
structure Moves (f : Nat → Nat) (lines lines' : List String) : Prop where
  /-- The numbers keep their order. -/
  strictMono : StrictMono f
  /-- The same lines count, under other numbers. -/
  counted : counted 1 lines' = (counted 1 lines).map (·.renumber f)

/-- Without an edit every line keeps its number. -/
theorem Moves.refl (lines : List String) : Moves id lines lines where
  strictMono := strictMono_id
  counted := (List.map_id _).symm

/-- Edits may follow each other, and numbers move with both. -/
theorem Moves.trans {f g : Nat → Nat} {lines lines' lines'' : List String}
    (h : Moves f lines lines') (h' : Moves g lines' lines'') : Moves (g ∘ f) lines lines'' where
  strictMono := h'.strictMono.comp h.strictMono
  counted := by
    rw [h'.counted, h.counted, List.map_map]
    rfl

/-- A line that is dropped is put in: the numbers behind it are higher by one. -/
theorem moves_insert (before after : List String) {line : String}
    (h : Drops (Text.trimmed line)) :
    Moves (fun n ↦ if n ≤ before.length then n else n + 1) (before ++ after)
      (before ++ line :: after) where
  strictMono m n hlt := by
    dsimp only
    split <;> split <;> omega
  counted := by
    rw [counted_append, counted_append, counted_cons_of_drops _ _ h,
      counted_succ (1 + before.length), List.map_append]
    congr 1
    · refine (List.map_id _).symm.trans (List.map_congr_left fun line hline ↦ ?_)
      have hnumber := (le_number_of_mem_counted _ _ hline).2
      rw [SourceLine.renumber, if_pos (by omega)]
      rfl
    · refine List.map_congr_left fun line hline ↦ ?_
      have hnumber := (le_number_of_mem_counted _ _ hline).1
      rw [SourceLine.renumber, SourceLine.renumber, if_neg (by omega)]

/-- One edit moves numbers, whichever it is. -/
theorem Edit.exists_moves {lines lines' : List String} (h : Edit lines lines') :
    ∃ f, Moves f lines lines' := by
  cases h with
  | blank before after h => exact ⟨_, moves_insert before after (.inl h)⟩
  | sentinel before after h => exact ⟨_, moves_insert before after (.inr h)⟩
  | trim before after h =>
    refine ⟨id, strictMono_id, (counted_congr 1 ?_).trans (List.map_id _).symm⟩
    rw [List.map_append, List.map_append, List.map_cons, List.map_cons, h]

/-- After any changes of the layout, the same lines count and the program begins as it did. -/
theorem Relaid.exists_moves {lines lines' : List String} (h : Relaid lines lines') :
    (∃ f, Moves f lines lines') ∧ Session.hasSentinel lines' = Session.hasSentinel lines := by
  induction h with
  | refl => exact ⟨⟨id, .refl _⟩, rfl⟩
  | tail _ hedit ih =>
    obtain ⟨⟨f, hf⟩, hsentinel⟩ := ih
    obtain ⟨g, hg⟩ := hedit.exists_moves
    exact ⟨⟨_, hf.trans hg⟩, hedit.hasSentinel_eq.trans hsentinel⟩

end Layout

/-! ### Runs -/

namespace Session

open Layout

/-- Nothing at the start of a session has a number. -/
theorem renumbered_start (f : Nat → Nat) (generator : Generator) (limits : Limits)
    (input : List String) :
    (start generator limits input).Renumbered f (start generator limits input) :=
  ⟨⟨rfl, ⟨rfl, .nil⟩, rfl, rfl, rfl, rfl⟩, rfl, rfl, rfl⟩

/-- A source of which the same lines count runs in the same way, but for their numbers. -/
theorem Renumbered.runSource {f : Nat → Nat} {s s' : Session} (h : s.Renumbered f s')
    {source source' : String} (hsentinel : hasSentinel (Text.lines source) = true)
    (hsentinel' : hasSentinel (Text.lines source') = true)
    (hcounted :
      counted 1 (Text.lines source') = (counted 1 (Text.lines source)).map (·.renumber f)) :
    RenumberedAnswer f (s.runSource source) (s'.runSource source') := by
  have hlines := h.feedEach (counted 1 (Text.lines source))
  rw [← hcounted, ← feedAll_eq_counted, ← feedAll_eq_counted] at hlines
  rw [Session.runSource, Session.runSource, if_pos hsentinel, if_pos hsentinel']
  generalize s.feedAll 1 (Text.lines source) = r at hlines
  generalize s'.feedAll 1 (Text.lines source') = r' at hlines
  cases hlines with
  | ok h => exact .ok h.finish
  | error h => exact .error h

/-- Layout does not matter. If blank lines are put into a source that begins as a program has to,
or lines of the word that programs start with behind its first line that is not blank, or if lines
get other blanks at their ends, then the program runs in the same way with whatever generator,
limits and input. What differs are the numbers of lines, which keep their order. -/
theorem runSource_relaid {source source' : String}
    (hsentinel : hasSentinel (Console.lines source) = true)
    (h : Relaid (Console.lines source) (Console.lines source')) :
    ∃ f, Moves f (Console.lines source) (Console.lines source') ∧ ∀ generator limits input,
      SameRun f ((start generator limits input).runSource source)
        ((start generator limits input).runSource source') := by
  obtain ⟨⟨f, hmoves⟩, hsame⟩ := h.exists_moves
  obtain ⟨hcounted, hfirst⟩ := lines_eq source
  obtain ⟨hcounted', hfirst'⟩ := lines_eq source'
  refine ⟨f, hmoves, fun generator limits input ↦ RenumberedAnswer.sameRun ?_⟩
  refine (renumbered_start f generator limits input).runSource ?_ ?_ ?_
  · rw [hfirst, hsentinel]
  · rw [hfirst', hsame, hsentinel]
  · rw [hcounted', hcounted, hmoves.counted]

/-- A value is popped, with a blank line in front, another line of the word that programs start
with, and blanks. -/
theorem runSource_relaid_pop : ∃ f,
    Moves f (Console.lines "학범\n우웩[x]") (Console.lines "\n 학범\n학범\n  우웩[x]\t\n") ∧
    ∀ generator limits input,
      SameRun f ((start generator limits input).runSource "학범\n우웩[x]")
        ((start generator limits input).runSource "\n 학범\n학범\n  우웩[x]\t\n") := by
  have hlines : Console.lines "학범\n우웩[x]" = ["학범", "우웩[x]"] := by decide
  have hlines' : Console.lines "\n 학범\n학범\n  우웩[x]\t\n" =
    ["", " 학범", "학범", "  우웩[x]\t"] := by decide
  refine runSource_relaid (by rw [hlines]; decide) ?_
  rw [hlines, hlines']
  have hfront : Edit ["학범", "우웩[x]"] ["", "학범", "우웩[x]"] := .blank [] _ (by decide)
  have hword : Edit ["", "학범", "우웩[x]"] ["", "학범", "학범", "우웩[x]"] :=
    .sentinel ["", "학범"] ["우웩[x]"] (by decide) ⟨"학범", by decide, by decide⟩
  have hblank : Edit ["", "학범", "학범", "우웩[x]"] ["", " 학범", "학범", "우웩[x]"] :=
    .trim [""] _ (by decide)
  have hblanks : Edit ["", " 학범", "학범", "우웩[x]"] ["", " 학범", "학범", "  우웩[x]\t"] :=
    .trim ["", " 학범", "학범"] [] (by decide)
  exact (((ReflTransGen.single hfront).tail hword).tail hblank).tail hblanks

end Session

end Haklang

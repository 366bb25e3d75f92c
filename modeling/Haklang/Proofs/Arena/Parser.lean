import Haklang.Proofs.Arena.Forest
import Mathlib.Logic.Relation

/-!
# Parsing into an arena

A parser that pushes nodes and hands on their numbers. It looks a node up in one place, when the
node is made to run twice, and has no result if there is none at that number
(`Arena.layTwice`). That a number which it hands on is in the arena is nowhere in its text.

It is shown to lay down the nodes of the trees that `Tree.ofPassage?` and `Tree.ofLines` build,
behind whatever is in the arena before (`Arena.layPassage_eq`, `Arena.layLines_eq`). So it always
has a result, and what is in the arena stays; and an arena that any calls of it have brought about
(`Arena.Grows`) has been laid down node by node (`Arena.Grows.exists_laid`).
-/

namespace Haklang

namespace Arena

/-! ### Parsing into an arena -/

/-- Pushes a node, and gives its number. -/
def push (arena : Arena) (node : Node) : Nat × Arena := (arena.length, arena ++ [node])

/-- Makes the node of a number run twice, under the next number. The line is that of the node, which
is looked up; there has to be one. -/
def layTwice (arena : Arena) (id : Nat) : Option (Nat × Arena) :=
  arena[id]?.map fun node ↦ arena.push (.twice node.line id)

/-- The node as it is, or made to run twice. -/
def layRepeated (twice? : Bool) (arena : Arena) (id : Nat) : Option (Nat × Arena) :=
  if twice? then arena.layTwice id else some (id, arena)

mutual

/-- Parses a passage into an arena, and gives the number of its node. The marker that makes the next
item run twice has none. -/
def layPassage (p : Passage) (arena : Arena) : Option (Option Nat × Arena) :=
  match Line.ofString p.head.text with
  | .twice => some (none, arena)
  | .statement s =>
    let (id, arena) := arena.push (.statement p.head s)
    some (some id, arena)
  | .header h => do
    let (body, arena) ← layLines p.body arena
    let (id, arena) := arena.push (.block p.head (.ofHeader h) body)
    some (some id, arena)
termination_by (p.size, 0)
decreasing_by
  exact Prod.Lex.left _ _ (Nat.lt_succ_self _)

/-- Parses a body into an arena, and gives the numbers of its nodes. -/
def layLines (lines : List SourceLine) (arena : Arena) : Option (List Nat × Arena) :=
  layPassages (Passage.ofLines lines) false arena
termination_by (lines.length, 2)
decreasing_by
  rcases Nat.lt_or_eq_of_le (Passage.size_ofLines_le lines) with h | h
  · exact Prod.Lex.left _ _ h
  · rw [h]
    exact Prod.Lex.right _ (by decide)

/-- Parses passages into an arena, in order; `twice?` says whether a marker stands before them. -/
def layPassages (passages : List Passage) (twice? : Bool) (arena : Arena) :
    Option (List Nat × Arena) :=
  match passages with
  | [] => some ([], arena)
  | p :: rest => do
    match ← layPassage p arena with
    | (none, arena) => layPassages rest true arena
    | (some id, arena) =>
      let (id, arena) ← arena.layRepeated twice? id
      let (ids, arena) ← layPassages rest false arena
      some (id :: ids, arena)
termination_by (Passage.totalSize passages, 1)
decreasing_by
  · have h : p.size ≤ Passage.totalSize (p :: rest) := Nat.le_add_right _ _
    rcases Nat.lt_or_eq_of_le h with h | h
    · exact Prod.Lex.left _ _ h
    · rw [h]
      exact Prod.Lex.right _ (by decide)
  · exact Prod.Lex.left _ _ (by simp [Passage.totalSize, Passage.size])
  · exact Prod.Lex.left _ _ (by simp [Passage.totalSize, Passage.size])

end

/-- A tree that has been laid down can be made to run twice. -/
theorem layRepeated_eq {arena : Arena} {t : Tree} (h : t.NumberedFrom arena.length)
    (twice? : Bool) : (arena ++ t.flatten).layRepeated twice? t.id =
      some ((t.repeated twice? (arena.length + t.flatten.length)).1.id,
        arena ++ (t.repeated twice? (arena.length + t.flatten.length)).1.flatten) := by
  cases twice? with
  | false => rfl
  | true =>
    have hnode : (arena ++ t.flatten)[t.id]? = some t.node :=
      (Tree.stored_append_flatten arena h).getElem?
    have hline : t.node.line = t.line := by cases t <;> rfl
    rw [layRepeated, if_pos rfl, layTwice, hnode, Option.map_some, hline, push,
      List.append_assoc, List.length_append]
    rfl

/-- What is laid down by parsing is what is built. The three parts are proved together, along the
recursion of the three functions that build. -/
theorem lay_eq_build :
    (∀ p next, ∀ arena : Arena, arena.length = next → layPassage p arena =
      some ((Tree.ofPassage? p next).elim (none, arena) fun r ↦
        (some r.1.id, arena ++ r.1.flatten))) ∧
    (∀ lines next, ∀ arena : Arena, arena.length = next → layLines lines arena =
      some ((Tree.ofLines lines next).1.map Tree.id,
        arena ++ Tree.flattenAll (Tree.ofLines lines next).1)) ∧
    ∀ passages twice? next, ∀ arena : Arena, arena.length = next →
      layPassages passages twice? arena =
        some ((Tree.ofPassages passages twice? next).1.map Tree.id,
          arena ++ Tree.flattenAll (Tree.ofPassages passages twice? next).1) := by
  apply Tree.ofPassage?.mutual_induct
  · -- the marker lays nothing down
    intro p next hp arena harena
    rw [layPassage, Tree.ofPassage?, hp]
    rfl
  · intro p next s hp arena harena
    subst harena
    rw [layPassage, Tree.ofPassage?, hp]
    rfl
  · -- a block is pushed behind its body, so its number is that of the next free place
    intro p next header hp body bodyNext hbody ih arena harena
    have hnext := (Tree.numberedFrom_build.2.1 p.body next).2
    simp only [hbody] at ih hnext
    subst harena hnext
    rw [layPassage, Tree.ofPassage?, hp]
    simp only [ih arena rfl, hbody, push]
    rw [← List.length_append]
    simp only [Option.bind_eq_bind, Option.bind_some, Option.elim_some, List.append_assoc]
    rfl
  · intro lines next ih arena harena
    rw [layLines, Tree.ofLines]
    exact ih arena harena
  · intro twice? next arena harena
    rw [layPassages, Tree.ofPassages]
    simp [Tree.flattenAll]
  · intro twice? next p rest hp ihp ih arena harena
    rw [layPassages, Tree.ofPassages, hp, ihp arena harena, hp]
    exact ih arena harena
  · -- a tree, possibly run twice, and the others behind it
    intro twice? next p rest t tNext hp t' next' hrepeated trees last hrest iht ihrest arena harena
    obtain ⟨hnumbered, rfl⟩ := Tree.numberedFrom_ofPassage? hp
    subst harena
    obtain ⟨-, hnext'⟩ := Tree.numberedFrom_repeated hnumbered twice?
    simp only [hrepeated] at hnext'
    simp only [hrest] at ihrest
    have hinner := iht arena rfl
    have hrepeat := layRepeated_eq hnumbered twice?
    have hlast := ihrest (arena ++ t'.flatten) (by rw [List.length_append, hnext'])
    rw [hrepeated] at hrepeat
    rw [layPassages, Tree.ofPassages, hinner, hp]
    simp only [Option.elim_some, Option.bind_eq_bind, Option.bind_some, hrepeated, hrepeat, hlast,
      hrest]
    simp [Tree.flattenAll]

/-- A passage is laid down with the nodes of its tree, behind whatever is there. -/
theorem layPassage_eq (p : Passage) (arena : Arena) : layPassage p arena =
    some ((Tree.ofPassage? p arena.length).elim (none, arena) fun r ↦
      (some r.1.id, arena ++ r.1.flatten)) :=
  lay_eq_build.1 p _ arena rfl

/-- A body is laid down with the nodes of its trees, behind whatever is there. -/
theorem layLines_eq (lines : List SourceLine) (arena : Arena) : layLines lines arena =
    some ((Tree.ofLines lines arena.length).1.map Tree.id,
      arena ++ Tree.flattenAll (Tree.ofLines lines arena.length).1) :=
  lay_eq_build.2.1 lines _ arena rfl

/-- A node that parsing has just laid down can be made to run twice, and this comes to laying down
another tree in the same place. -/
theorem layTwice_of_layPassage {p : Passage} {arena arena' : Arena} {id : Nat}
    (h : layPassage p arena = some (some id, arena')) :
    ∃ t : Tree, t.NumberedFrom arena.length ∧
      arena'.layTwice id = some (t.id, arena ++ t.flatten) := by
  rw [layPassage_eq] at h
  rcases hp : Tree.ofPassage? p arena.length with - | ⟨t, next⟩ <;> rw [hp] at h <;> cases h
  obtain ⟨hnumbered, rfl⟩ := Tree.numberedFrom_ofPassage? hp
  exact ⟨_, (Tree.numberedFrom_repeated hnumbered true).1, layRepeated_eq hnumbered true⟩

/-! ### Sequences of parses -/

/-- The arena before and after a call of the parser. A node is made to run twice only right after it
has been laid down. -/
inductive Parses : Arena → Arena → Prop where
  /-- A passage is parsed. -/
  | passage {arena arena' : Arena} {p : Passage} {id? : Option Nat}
    (h : layPassage p arena = some (id?, arena')) : Parses arena arena'
  /-- A body is parsed. -/
  | lines {arena arena' : Arena} {lines : List SourceLine} {ids : List Nat}
    (h : layLines lines arena = some (ids, arena')) : Parses arena arena'
  /-- A passage is parsed, and its node is made to run twice. -/
  | twice {arena arena' arena'' : Arena} {p : Passage} {id id' : Nat}
    (h : layPassage p arena = some (some id, arena'))
    (htwice : arena'.layTwice id = some (id', arena'')) : Parses arena arena''

/-- The arena before and after some calls of the parser. -/
abbrev Grows : Arena → Arena → Prop := Relation.ReflTransGen Parses

/-- A call of the parser lays trees down behind what is there. -/
theorem Parses.exists_trees {arena arena' : Arena} (h : Parses arena arena') :
    ∃ ts, Tree.NumberedAllFrom arena.length ts ∧ arena' = arena ++ Tree.flattenAll ts := by
  have hone {t : Tree} (ht : t.NumberedFrom arena.length) :
      ∃ ts, Tree.NumberedAllFrom arena.length ts ∧
        arena ++ t.flatten = arena ++ Tree.flattenAll ts :=
    ⟨[t], ⟨ht, trivial⟩, by rw [Tree.flattenAll, Tree.flattenAll, List.append_nil]⟩
  cases h with
  | @passage _ p _ h =>
    rw [layPassage_eq] at h
    rcases hp : Tree.ofPassage? p arena.length with - | ⟨t, next⟩ <;> rw [hp] at h <;> cases h
    · exact ⟨[], trivial, (List.append_nil _).symm⟩
    · exact hone (Tree.numberedFrom_ofPassage? hp).1
  | @lines _ lines _ h =>
    rw [layLines_eq] at h
    cases h
    exact ⟨_, Tree.numberedAllFrom_ofLines lines _, rfl⟩
  | twice h htwice =>
    obtain ⟨t, ht, hlay⟩ := layTwice_of_layPassage h
    rw [hlay] at htwice
    cases htwice
    exact hone ht

/-- Nothing that is in an arena changes. -/
theorem Grows.isPrefix {arena arena' : Arena} (h : Grows arena arena') : arena <+: arena' := by
  induction h with
  | refl => exact List.prefix_refl _
  | tail _ hstep ih =>
    obtain ⟨ts, -, rfl⟩ := hstep.exists_trees
    exact ih.trans (List.prefix_append _ _)

/-- An arena that parsing has brought about has been laid down node by node. -/
theorem Grows.exists_laid {arena : Arena} (h : Grows [] arena) : ∃ free, Laid arena free := by
  induction h with
  | refl => exact ⟨[], .empty⟩
  | tail _ hstep ih =>
    obtain ⟨free, hlaid⟩ := ih
    obtain ⟨ts, hnumbered, rfl⟩ := hstep.exists_trees
    exact ⟨_, hlaid.trees hnumbered⟩

/-- No number leads astray in an arena, nor in what is parsed into it next. -/
structure Safe (arena : Arena) : Prop where
  /-- The nodes of the arena are a forest. -/
  forest : arena.Forest
  /-- Going from a node to one of its parts comes to an end. -/
  wellFounded : WellFounded arena.Part
  /-- A passage can be parsed. -/
  passage : ∀ p, ∃ r, layPassage p arena = some r
  /-- A body can be parsed. -/
  lines : ∀ lines, ∃ r, layLines lines arena = some r
  /-- A node that has just been laid down can be made to run twice. -/
  twice : ∀ p id arena', layPassage p arena = some (some id, arena') →
    ∃ r, arena'.layTwice id = some r
  /-- Whatever is parsed, no node changes. -/
  stays : ∀ arena', Grows arena arena' → arena <+: arena'

theorem Grows.safe {arena : Arena} (h : Grows [] arena) : arena.Safe := by
  obtain ⟨free, hlaid⟩ := h.exists_laid
  refine ⟨hlaid.forest, hlaid.forest.wellFounded, fun p ↦ ⟨_, layPassage_eq p arena⟩,
    fun lines ↦ ⟨_, layLines_eq lines arena⟩, fun p id arena' hp ↦ ?_, fun _ ↦ Grows.isPrefix⟩
  obtain ⟨t, -, ht⟩ := layTwice_of_layPassage hp
  exact ⟨_, ht⟩

end Arena

end Haklang

import Haklang.Tree

/-!
# Arenas

The nodes of all trees of a session, one behind the other. A node knows its parts by their numbers
only, and the number of a node is its place in the arena. Nothing about an arena by itself says that
following numbers comes to an end, or that there is a node at a number at all. `Tree.Stored` says it
of one tree: at the number of the tree and at those of all its parts, the arena has their nodes.

A tree is laid down in the order in which its parts were completed (`Tree.flatten`). Trees are
numbered in the same order, without a gap (`Tree.numberedFrom_ofPassage?`), so a tree that is
numbered from the end of an arena is stored when it is laid down there
(`Tree.stored_append_flatten`), and stays stored when more is laid down behind it
(`Tree.Stored.append`).
-/

namespace Haklang

/-- A tree without its parts, which are known by their numbers. -/
inductive Node where
  /-- A statement. -/
  | statement (line : SourceLine) (s : Statement)
  /-- A block; its line is the header. -/
  | block (line : SourceLine) (head : BlockHead) (body : List Nat)
  /-- A node that runs twice; its line is that of the node inside. -/
  | twice (line : SourceLine) (inner : Nat)

/-- The line that messages name. -/
def Node.line : Node → SourceLine
  | statement line _ => line
  | block line _ _ => line
  | twice line _ => line

/-- The nodes of all trees so far; the number of a node is its place. -/
abbrev Arena : Type := List Node

/-- Nothing that is laid down behind moves a node. -/
theorem Arena.getElem?_append {arena : Arena} {id : Nat} {node : Node} (more : Arena)
    (h : arena[id]? = some node) : (arena ++ more)[id]? = some node := by
  obtain ⟨hid, -⟩ := List.getElem?_eq_some_iff.mp h
  rw [List.getElem?_append_left hid, h]

namespace Tree

/-- The node of a tree. -/
def node : Tree → Node
  | statement _ line s => .statement line s
  | block _ line head body => .block line head (body.map id)
  | twice _ line inner => .twice line inner.id

mutual

/-- The nodes of a tree and of its parts, in the order in which they were completed. -/
def flatten : Tree → List Node
  | statement id line s => [(statement id line s).node]
  | block id line head body => flattenAll body ++ [(block id line head body).node]
  | twice id line inner => flatten inner ++ [(twice id line inner).node]

/-- The nodes of trees in order. -/
def flattenAll : List Tree → List Node
  | [] => []
  | t :: rest => flatten t ++ flattenAll rest

end

/-! ### Numbers -/

mutual

/-- A tree and its parts are numbered in the order of their nodes, from a given number. -/
def NumberedFrom : Nat → Tree → Prop
  | next, statement id _ _ => id = next
  | next, block id _ _ body => NumberedAllFrom next body ∧ id = next + (flattenAll body).length
  | next, twice id _ inner => NumberedFrom next inner ∧ id = next + (flatten inner).length

/-- Trees are numbered one behind the other, from a given number. -/
def NumberedAllFrom : Nat → List Tree → Prop
  | _, [] => True
  | next, t :: rest => NumberedFrom next t ∧ NumberedAllFrom (next + (flatten t).length) rest

end

variable {t : Tree} {ts : List Tree} {next : Nat}

/-- Making a tree run twice uses up one number, right behind those of the tree. -/
theorem numberedFrom_repeated (h : NumberedFrom next t) (twice? : Bool) :
    NumberedFrom next (t.repeated twice? (next + t.flatten.length)).1 ∧
      (t.repeated twice? (next + t.flatten.length)).2 =
        next + (t.repeated twice? (next + t.flatten.length)).1.flatten.length := by
  cases twice? with
  | false => exact ⟨h, rfl⟩
  | true => simp [repeated, NumberedFrom, flatten, h, Nat.add_assoc]

/-- Building numbers trees without a gap. The three parts are proved together, along the recursion
of the three functions that build. -/
theorem numberedFrom_build :
    (∀ p next, ∀ t next', ofPassage? p next = some (t, next') →
      NumberedFrom next t ∧ next' = next + t.flatten.length) ∧
    (∀ lines next, NumberedAllFrom next (ofLines lines next).1 ∧
      (ofLines lines next).2 = next + (flattenAll (ofLines lines next).1).length) ∧
    ∀ passages twice? next, NumberedAllFrom next (ofPassages passages twice? next).1 ∧
      (ofPassages passages twice? next).2 =
        next + (flattenAll (ofPassages passages twice? next).1).length := by
  apply ofPassage?.mutual_induct
  · -- the marker is no tree
    intro p next hp t next' h
    simp [ofPassage?, hp] at h
  · -- a statement takes one number
    intro p next s hp t next' h
    rw [ofPassage?, hp] at h
    obtain ⟨rfl, rfl⟩ := h
    exact ⟨rfl, rfl⟩
  · -- a block is numbered right behind its body
    intro p next header hp body bodyNext hbody ih t next' h
    simp only [hbody] at ih
    obtain ⟨hnumbered, rfl⟩ := ih
    rw [ofPassage?, hp] at h
    simp only [hbody, Option.some.injEq, Prod.mk.injEq] at h
    obtain ⟨rfl, rfl⟩ := h
    exact ⟨⟨hnumbered, rfl⟩, by simp [flatten, Nat.add_assoc]⟩
  · intro lines next ih
    rw [ofLines]
    exact ih
  · intro twice? next
    rw [ofPassages]
    exact ⟨trivial, rfl⟩
  · -- a marker takes no number
    intro twice? next p rest hp _ ih
    rw [ofPassages, hp]
    exact ih
  · -- a tree, possibly run twice, and the others behind it
    intro twice? next p rest t tNext hp t' next' hrepeated trees last hrest iht ihrest
    obtain ⟨ht, rfl⟩ := iht t tNext hp
    obtain ⟨ht', hnext'⟩ := numberedFrom_repeated ht twice?
    simp only [hrepeated] at ht' hnext'
    simp only [hrest] at ihrest
    obtain ⟨htrees, rfl⟩ := ihrest
    rw [ofPassages, hp]
    simp only [hrepeated, hrest]
    refine ⟨⟨ht', ?_⟩, ?_⟩
    · rwa [← hnext']
    · rw [hnext', flattenAll, List.length_append, Nat.add_assoc]

/-- The tree of a passage is numbered from the number that it was built with, and the next free
number is right behind. -/
theorem numberedFrom_ofPassage? {p : Passage} {next' : Nat}
    (h : ofPassage? p next = some (t, next')) :
    NumberedFrom next t ∧ next' = next + t.flatten.length :=
  numberedFrom_build.1 p next t next' h

/-- The trees of a body are numbered from the number that they were built with. -/
theorem numberedAllFrom_ofLines (lines : List SourceLine) (next : Nat) :
    NumberedAllFrom next (ofLines lines next).1 :=
  (numberedFrom_build.2.1 lines next).1

/-! ### Trees in an arena -/

mutual

/-- At the numbers of a tree and of all its parts, the arena has their nodes. -/
def Stored (arena : Arena) : Tree → Prop
  | statement id line s => arena[id]? = some (statement id line s).node
  | block id line head body =>
    StoredAll arena body ∧ arena[id]? = some (block id line head body).node
  | twice id line inner => Stored arena inner ∧ arena[id]? = some (twice id line inner).node

/-- All trees are stored. -/
def StoredAll (arena : Arena) : List Tree → Prop
  | [] => True
  | t :: rest => Stored arena t ∧ StoredAll arena rest

end

variable {arena : Arena}

/-- Following the number of a stored tree gives its node. -/
theorem Stored.getElem? (h : Stored arena t) : arena[t.id]? = some t.node := by
  cases t with
  | statement id line s => exact h
  | block id line head body => exact h.2
  | twice id line inner => exact h.2

theorem storedAll_iff : StoredAll arena ts ↔ ∀ t ∈ ts, t.Stored arena := by
  induction ts with
  | nil => exact ⟨fun _ ↦ nofun, fun _ ↦ trivial⟩
  | cons t rest ih => rw [StoredAll, ih, List.forall_mem_cons]

mutual

/-- A stored tree stays stored when more is laid down. -/
theorem Stored.append (more : Arena) :
    ∀ {t : Tree}, Stored arena t → Stored (arena ++ more) t
  | .statement _ _ _, h => Arena.getElem?_append more h
  | .block _ _ _ _, ⟨hbody, h⟩ => ⟨hbody.append more, Arena.getElem?_append more h⟩
  | .twice _ _ _, ⟨hinner, h⟩ => ⟨hinner.append more, Arena.getElem?_append more h⟩

theorem StoredAll.append (more : Arena) :
    ∀ {ts : List Tree}, StoredAll arena ts → StoredAll (arena ++ more) ts
  | [], _ => trivial
  | _ :: _, ⟨ht, hrest⟩ => ⟨ht.append more, hrest.append more⟩

end

mutual

/-- A tree that is numbered from the end of an arena is stored when it is laid down there. -/
theorem stored_append_flatten (arena : Arena) :
    ∀ {t : Tree}, NumberedFrom arena.length t → Stored (arena ++ t.flatten) t
  | .statement _ _ _, h => by
    subst h
    simp [Stored, flatten]
  | .block _ _ _ _, ⟨hbody, h⟩ => by
    subst h
    have hstored := (storedAll_append_flattenAll arena hbody).append
    rw [flatten, ← List.append_assoc]
    exact ⟨hstored _, by simp⟩
  | .twice _ _ _, ⟨hinner, h⟩ => by
    subst h
    have hstored := (stored_append_flatten arena hinner).append
    rw [flatten, ← List.append_assoc]
    exact ⟨hstored _, by simp⟩

theorem storedAll_append_flattenAll (arena : Arena) :
    ∀ {ts : List Tree}, NumberedAllFrom arena.length ts → StoredAll (arena ++ flattenAll ts) ts
  | [], _ => trivial
  | t :: rest, ⟨ht, hrest⟩ => by
    rw [← List.length_append] at hrest
    have hstored := (stored_append_flatten arena ht).append
    rw [flattenAll, ← List.append_assoc]
    exact ⟨hstored _, storedAll_append_flattenAll _ hrest⟩

end

end Tree

end Haklang

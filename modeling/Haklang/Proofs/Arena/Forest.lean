import Haklang.Proofs.Arena.Basic
import Mathlib.Data.List.Nodup
import Mathlib.Data.List.Range

/-!
# Arenas are forests

An arena that comes about by parsing is laid down node by node, and a node that is pushed takes as
its parts the last of the numbers that are not parts of anything yet (`Arena.Laid`). That is all
there is to know about a push. It follows that each number is either free or a part of one node,
once (`Arena.Laid.perm`), that parts come before the node they belong to, and that they are in
ascending order (`Arena.Laid.forest`). So following parts comes to an end.

Trees that are numbered from the end of the arena are laid down in this way (`Arena.Laid.trees`): a
block takes the trees of its body, which are the last ones that were completed, and one that runs
twice the tree inside.
-/

namespace Haklang

/-- The numbers of the parts of a node. -/
def Node.parts : Node → List Nat
  | statement _ _ => []
  | block _ _ body => body
  | twice _ inner => [inner]

namespace Arena

/-! ### Nodes laid down one by one -/

/-- The arena has been laid down node by node, and the given numbers are not parts of any node. The
parts of a node are the last numbers that are free when it is pushed. -/
inductive Laid : Arena → List Nat → Prop where
  /-- Nothing has been laid down. -/
  | empty : Laid [] []
  /-- A node has been pushed. -/
  | push {arena : Arena} {free : List Nat} {node : Node} (h : Laid arena (free ++ node.parts)) :
    Laid (arena ++ [node]) (free ++ [arena.length])

/-- One node is a part of another. -/
def Part (arena : Arena) (inner outer : Nat) : Prop :=
  ∃ node, arena[outer]? = some node ∧ inner ∈ node.parts

/-- What is known of the numbers in an arena. -/
structure Forest (arena : Arena) : Prop where
  /-- Parts come before the node that they belong to, and both are in the arena. -/
  descending : ∀ {inner outer}, arena.Part inner outer → inner < outer ∧ outer < arena.length
  /-- The parts of a node are in ascending order, and each is there once. -/
  ascending : ∀ node ∈ arena, node.parts.Pairwise (· < ·)
  /-- No node is a part of two. -/
  unique : ∀ {inner outer outer'}, arena.Part inner outer → arena.Part inner outer' →
    outer = outer'

/-- Going from a node to one of its parts comes to an end. -/
theorem Forest.wellFounded {arena : Arena} (h : arena.Forest) : WellFounded arena.Part :=
  Subrelation.wf (fun hpart ↦ (h.descending hpart).1) Nat.lt_wfRel.wf

namespace Laid

variable {arena : Arena} {free : List Nat}

/-- Each number is either free or a part of one node, once. -/
theorem perm (h : Laid arena free) :
    (free ++ arena.flatMap Node.parts).Perm (List.range arena.length) := by
  induction h with
  | empty => exact .refl _
  | @push arena free node _ ih =>
    have hmove : ((free ++ [arena.length]) ++ (arena.flatMap Node.parts ++ node.parts)).Perm
        (((free ++ node.parts) ++ arena.flatMap Node.parts) ++ [arena.length]) := by
      refine List.perm_iff_count.2 fun id ↦ ?_
      simp only [List.count_append]
      omega
    simpa [List.range_succ] using hmove.trans (ih.append_right _)

/-- Free numbers are in the arena. -/
theorem lt_length (h : Laid arena free) : ∀ id ∈ free, id < arena.length := fun _ hid ↦
  List.mem_range.1 (h.perm.subset (List.mem_append_left _ hid))

/-- Free numbers are in ascending order. -/
theorem pairwise (h : Laid arena free) : free.Pairwise (· < ·) := by
  induction h with
  | empty => exact .nil
  | @push arena free node h ih =>
    refine List.pairwise_append.2 ⟨(List.pairwise_append.1 ih).1, List.pairwise_singleton _ _, ?_⟩
    intro id hid last hlast
    rw [List.mem_singleton.1 hlast]
    exact h.lt_length id (List.mem_append_left _ hid)

/-- The parts of a node come before it. -/
theorem lt_of_part (h : Laid arena free) {inner outer : Nat} (hpart : arena.Part inner outer) :
    inner < outer := by
  induction h with
  | empty => exact nomatch hpart.choose_spec.1
  | @push arena free node h ih =>
    obtain ⟨other, hother, hmem⟩ := hpart
    rcases Nat.lt_or_ge outer arena.length with hlt | hge
    · rw [List.getElem?_append_left hlt] at hother
      exact ih ⟨other, hother, hmem⟩
    · -- the node that has just been pushed
      rw [List.getElem?_append_right hge, List.getElem?_singleton] at hother
      split at hother
      · cases hother
        exact (h.lt_length inner (List.mem_append_right _ hmem)).trans_le hge
      · cases hother

theorem ascending (h : Laid arena free) : ∀ node ∈ arena, node.parts.Pairwise (· < ·) := by
  induction h with
  | empty => exact List.forall_mem_nil _
  | push h ih =>
    intro other hother
    rcases List.mem_append.1 hother with hother | hother
    · exact ih other hother
    · rw [List.mem_singleton.1 hother]
      exact (List.pairwise_append.1 h.pairwise).2.1

/-- No number is a part twice, since none is there twice. -/
theorem unique (h : Laid arena free) {inner outer outer' : Nat} (hpart : arena.Part inner outer)
    (hpart' : arena.Part inner outer') : outer = outer' := by
  have hnodup : (arena.flatMap Node.parts).Nodup :=
    (List.nodup_append.1 (h.perm.nodup_iff.2 List.nodup_range)).2.1
  have hdisjoint := (List.nodup_flatMap.1 hnodup).2
  obtain ⟨node, hnode, hmem⟩ := hpart
  obtain ⟨node', hnode', hmem'⟩ := hpart'
  obtain ⟨hlt, rfl⟩ := List.getElem?_eq_some_iff.1 hnode
  obtain ⟨hlt', rfl⟩ := List.getElem?_eq_some_iff.1 hnode'
  rcases Nat.lt_trichotomy outer outer' with hless | heq | hless
  · exact absurd hmem' (List.pairwise_iff_getElem.1 hdisjoint _ _ hlt hlt' hless hmem)
  · exact heq
  · exact absurd hmem (List.pairwise_iff_getElem.1 hdisjoint _ _ hlt' hlt hless hmem')

theorem forest (h : Laid arena free) : arena.Forest where
  descending hpart :=
    ⟨h.lt_of_part hpart, (List.getElem?_eq_some_iff.1 hpart.choose_spec.1).choose⟩
  ascending := h.ascending
  unique := h.unique

end Laid

/-! ### Trees laid down -/

mutual

/-- Laying a tree down makes one number more that is free: that of the tree. -/
theorem Laid.tree {arena : Arena} {free : List Nat} (h : Laid arena free) :
    ∀ {t : Tree}, t.NumberedFrom arena.length → Laid (arena ++ t.flatten) (free ++ [t.id])
  | .statement _ line s, ht => by
    subst ht
    have hparts : Laid arena (free ++ (Node.statement line s).parts) := by
      rwa [Node.parts, List.append_nil]
    exact hparts.push
  | .block _ line head body, ⟨hbody, ht⟩ => by
    have hparts : Laid (arena ++ Tree.flattenAll body)
        (free ++ (Node.block line head (body.map Tree.id)).parts) := h.trees hbody
    have hpush := hparts.push
    rw [List.length_append, ← ht, List.append_assoc] at hpush
    exact hpush
  | .twice _ line inner, ⟨hinner, ht⟩ => by
    have hparts : Laid (arena ++ inner.flatten)
        (free ++ (Node.twice line inner.id).parts) := h.tree hinner
    have hpush := hparts.push
    rw [List.length_append, ← ht, List.append_assoc] at hpush
    exact hpush

theorem Laid.trees {arena : Arena} {free : List Nat} (h : Laid arena free) :
    ∀ {ts : List Tree}, Tree.NumberedAllFrom arena.length ts →
      Laid (arena ++ Tree.flattenAll ts) (free ++ ts.map Tree.id)
  | [], _ => by simpa [Tree.flattenAll] using h
  | t :: rest, ⟨ht, hrest⟩ => by
    rw [← List.length_append] at hrest
    have := (h.tree ht).trees hrest
    simpa [Tree.flattenAll] using this

end

end Arena

end Haklang

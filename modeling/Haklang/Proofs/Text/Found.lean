import Haklang.Text.Cut

/-!
# What the cuts find

The cuts of a text lose nothing; the statements here are the other half, on which reading back what
was written rests: a cut finds the place that the text was put together at. For the first character
of a kind that is a matter of the part before it (`splitAtFirst?_append`). A shortest run ends where
the continuation accepts first (`shortestRun_append`), a longest run where it accepts last
(`longestRun_append`).
-/

namespace Haklang

namespace Text

theorem splitAtFirst?_append {p : Char → Bool} {l r : List Char} {c : Char}
    (hl : ∀ a ∈ l, p a = false) (hc : p c = true) :
    splitAtFirst? p (l ++ c :: r) = some (l, r) := by
  induction l with
  | nil => rw [List.nil_append, splitAtFirst?, if_pos hc]
  | cons a l ih =>
    have ha : ¬ p a = true := by simp [hl a List.mem_cons_self]
    rw [List.cons_append, splitAtFirst?, if_neg ha, ih fun b hb ↦ hl b (List.mem_cons_of_mem a hb)]
    rfl

/-- The first copy of a character is the one behind a text without it. -/
theorem splitAtFirst?_of_not_mem {q : Char} {s : List Char} (h : q ∉ s) (r : List Char) :
    splitAtFirst? (· == q) (s ++ q :: r) = some (s, r) :=
  splitAtFirst?_append (fun _ ha ↦ beq_eq_false_iff_ne.2 fun hq ↦ h (hq ▸ ha)) (beq_self_eq_true q)

theorem splitAtFirst?_eq_none {p : Char → Bool} {cs : List Char} (h : ∀ a ∈ cs, p a = false) :
    splitAtFirst? p cs = none := by
  induction cs with
  | nil => rfl
  | cons a cs ih =>
    have ha : ¬ p a = true := by simp [h a List.mem_cons_self]
    rw [splitAtFirst?, if_neg ha, ih fun b hb ↦ h b (List.mem_cons_of_mem a hb)]
    rfl

section Run

variable {α : Type} {k : List Char → Option α} {s r : List Char} {a : α}

/-- The shortest run ends where the rest is accepted first. -/
theorem shortestRun_append (hne : s ≠ []) (hs : '\n' ∉ s) (hr : k r = some a)
    (hfirst : ∀ u v, s = u ++ v → u ≠ [] → v ≠ [] → k (v ++ r) = none) :
    shortestRun k (s ++ r) = some (s, a) := by
  induction s with
  | nil => exact absurd rfl hne
  | cons c s ih =>
    rw [List.mem_cons, not_or] at hs
    rw [List.cons_append, shortestRun, if_neg (Ne.symm hs.1)]
    cases s with
    | nil => rw [List.nil_append, hr]
    | cons d s =>
      have hnot : k (d :: s ++ r) = none :=
        hfirst [c] (d :: s) rfl (List.cons_ne_nil c []) (List.cons_ne_nil d s)
      have hrest : shortestRun k (d :: s ++ r) = some (d :: s, a) :=
        ih (List.cons_ne_nil d s) hs.2 fun u v huv _ hv ↦
          hfirst (c :: u) v (by rw [huv]; rfl) (List.cons_ne_nil c u) hv
      rw [hnot, hrest]
      rfl

/-- The longest run ends where the rest is accepted last. -/
theorem longestRun_append (hs : '\n' ∉ s) (hr : longestRun k r = some ([], a)) :
    longestRun k (s ++ r) = some (s, a) := by
  induction s with
  | nil => exact hr
  | cons c s ih =>
    rw [List.mem_cons, not_or] at hs
    rw [List.cons_append, longestRun, if_neg (Ne.symm hs.1), ih hs.2]

end Run

end Text

end Haklang

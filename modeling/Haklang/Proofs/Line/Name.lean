import Haklang.Line.Reader
import Haklang.Proofs.Text.Found

/-!
# Names in brackets

A rule that starts with a name in brackets tries the names from the shortest on, and takes the first
behind which the rest of the rule fits. So a name is not ended by the first closing bracket: when
the rest does not fit there, the name goes on behind it. The statements here say which name is taken
(`bracketed_of_first`) and when there is none (`bracketed_eq_none`).

They are about lines that start with a plain name (`IsName`). Such a name has no bracket, so the
first place to try is right behind it, and it has no parenthesis, so the form with parentheses
inside the brackets does not fit (`variableName_eq_bracketed`).
-/

namespace Haklang

namespace Text

/-- The characters that no plain name has. -/
def nameEnders : List Char := ['[', ']', '(', ')', '\n']

/-- A plain name: one on a line, without brackets and parentheses. -/
structure IsName (n : List Char) : Prop where
  /-- It is not empty. -/
  ne_nil : n ≠ []
  /-- It has no brackets, no parentheses and no line feed. -/
  not_mem : ∀ c ∈ n, c ∉ nameEnders

variable {α : Type} {k : List Char → Option α} {n r : List Char}

theorem IsName.closer_not_mem (hn : IsName n) : ']' ∉ n := fun h ↦ hn.not_mem _ h (by decide)

theorem IsName.lineFeed_not_mem (hn : IsName n) : '\n' ∉ n := fun h ↦ hn.not_mem _ h (by decide)

/-- A plain name does not start with a parenthesis. -/
theorem IsName.after?_eq_none (hn : IsName n) (r : List Char) :
    after? "[(".toList ('[' :: (n ++ r)) = none := by
  obtain ⟨c, t, rfl⟩ := List.exists_cons_of_ne_nil hn.ne_nil
  have hc : '(' ≠ c := by
    rintro rfl
    exact hn.not_mem _ List.mem_cons_self (by decide)
  show (if '(' = c then after? [] (t ++ r) else none) = none
  rw [if_neg hc]

/-- Behind a plain name, parentheses inside the brackets make no difference. -/
theorem variableName_eq_bracketed (hn : IsName n) (k : List Char → Option α) (r : List Char) :
    variableName k ('[' :: (n ++ r)) = bracketed k ('[' :: (n ++ r)) := by
  rw [variableName, hn.after?_eq_none]
  rfl

/-- A run has no end if no rest is accepted. -/
theorem shortestRun_eq_none {cs : List Char} (h : ∀ u v, cs = u ++ v → k v = none) :
    shortestRun k cs = none := by
  rcases hrun : shortestRun k cs with - | ⟨s, a⟩
  · rfl
  · obtain ⟨v, rfl, hv, -⟩ := shortestRun_eq_some hrun
    rw [h s v rfl] at hv
    cases hv

/-- The name in brackets ends where the rest is accepted first. -/
theorem bracketed_of_first {name : List Char} {a : α} (hne : name ≠ []) (hline : '\n' ∉ name)
    (hr : k r = some a) (hfirst : ∀ u v, name = u ++ ']' :: v → k (v ++ ']' :: r) = none) :
    bracketed k ('[' :: (name ++ ']' :: r)) = some (String.ofList name, a) := by
  have hrun : shortestRun (fun r ↦ after? [']'] r >>= k) (name ++ ']' :: r) = some (name, a) := by
    refine shortestRun_append hne hline hr fun u v huv _ hv ↦ ?_
    obtain ⟨c, v, rfl⟩ := List.exists_cons_of_ne_nil hv
    by_cases hc : ']' = c
    · subst hc
      exact hfirst u v huv
    · show ((if ']' = c then after? [] _ else none) >>= k) = none
      rw [if_neg hc]
      rfl
  rw [bracketed]
  show (shortestRun _ (name ++ ']' :: r) >>= _) = _
  rw [hrun]
  rfl

/-- There is no name in brackets if no rest is accepted. -/
theorem bracketed_eq_none {cs : List Char} (h : ∀ u v, cs = u ++ ']' :: v → k v = none) :
    bracketed k ('[' :: cs) = none := by
  have hrun : shortestRun (fun r ↦ after? [']'] r >>= k) cs = none := by
    refine shortestRun_eq_none fun u v huv ↦ ?_
    rcases hv : after? [']'] v with - | r
    · rfl
    · rw [after?_eq_some_iff] at hv
      exact h u r (huv.trans (congrArg (u ++ ·) hv))
  rw [bracketed]
  show (shortestRun _ cs >>= _) = _
  rw [hrun]
  rfl

/-- A plain name is taken if the rest is accepted right behind it. -/
theorem variableName_of_isName {a : α} (hn : IsName n) (hr : k r = some a) :
    variableName k ('[' :: (n ++ ']' :: r)) = some (String.ofList n, a) := by
  rw [variableName_eq_bracketed hn]
  refine bracketed_of_first hn.ne_nil hn.lineFeed_not_mem hr fun u v huv ↦ ?_
  exact absurd (huv ▸ List.mem_append_right u List.mem_cons_self) hn.closer_not_mem

theorem restOfLine_of_not_mem {cs : List Char} (hne : cs ≠ []) (hline : '\n' ∉ cs) :
    restOfLine cs = some cs := by
  have hkeep : ∀ c ∈ cs, (c != '\n') = true := fun c hc ↦ bne_iff_ne.2 fun h ↦ hline (h ▸ hc)
  have hall : cs.takeWhile (· != '\n') = cs := by
    have happend : (cs ++ []).takeWhile (· != '\n') = cs ++ [].takeWhile (· != '\n') :=
      List.takeWhile_append_of_pos hkeep
    rwa [List.append_nil, List.takeWhile_nil, List.append_nil] at happend
  obtain ⟨c, t, rfl⟩ := List.exists_cons_of_ne_nil hne
  rw [restOfLine, hall]

end Text

end Haklang

/-!
# Cutting a text

How a reader takes a text apart from its left end: a fixed word (`after?`), a fixed word at the
right end (`before?`), and a run of characters other than a line feed whose end is found by what
must follow it. A run is tried either at its shortest first or at its longest first; the
continuation says whether the rest is acceptable and what it reads there. So a nest of runs and
words tries its possibilities in one fixed order and answers with the first that fits.

`after?_eq_some_iff`, `shortestRun_eq_some`, `longestRun_eq_some` say that nothing is lost: the
run and the rest that the continuation accepted make up the text.
-/

namespace Haklang

namespace Text

/-- What follows the word `w` in a text that starts with it. -/
def after? : List Char → List Char → Option (List Char)
  | [], cs => some cs
  | _ :: _, [] => none
  | a :: w, c :: cs => if a = c then after? w cs else none

theorem after?_eq_some_iff {w cs r : List Char} : after? w cs = some r ↔ cs = w ++ r := by
  induction w generalizing cs with
  | nil => simp [after?]
  | cons a w ih =>
    cases cs with
    | nil => simp [after?]
    | cons c cs =>
      by_cases h : a = c
      · subst h
        simpa [after?] using ih
      · simp [after?, h, Ne.symm h]

@[simp] theorem after?_append (w r : List Char) : after? w (w ++ r) = some r :=
  after?_eq_some_iff.2 rfl

/-- What stands before the word `w` in a text that ends with it. -/
def before? (w : List Char) (cs : List Char) : Option (List Char) :=
  (after? w.reverse cs.reverse).map List.reverse

theorem before?_eq_some_iff {w cs l : List Char} : before? w cs = some l ↔ cs = l ++ w := by
  simp only [before?, Option.map_eq_some_iff, after?_eq_some_iff]
  constructor
  · rintro ⟨r, h, rfl⟩
    rw [← List.reverse_inj]
    simpa using h
  · rintro rfl
    exact ⟨l.reverse, by simp⟩

/-- What stands between a character and a second copy of it at the two ends of a text. -/
def between? (q : Char) : List Char → Option (List Char)
  | [] => none
  | c :: r => if c = q then before? [q] r else none

theorem between?_eq_some_iff {q : Char} {cs s : List Char} :
    between? q cs = some s ↔ cs = q :: (s ++ [q]) := by
  cases cs with
  | nil => simp [between?]
  | cons c r =>
    by_cases h : c = q
    · simp [between?, h, before?_eq_some_iff]
    · simp [between?, h]

/-- What stands before and after the first character that satisfies `p`. -/
def splitAtFirst? (p : Char → Bool) : List Char → Option (List Char × List Char)
  | [] => none
  | c :: r => if p c then some ([], r) else (splitAtFirst? p r).map fun (l, r) ↦ (c :: l, r)

theorem splitAtFirst?_eq_some {p : Char → Bool} {cs l r : List Char}
    (h : splitAtFirst? p cs = some (l, r)) : ∃ c, p c = true ∧ cs = l ++ c :: r := by
  induction cs generalizing l with
  | nil => cases h
  | cons c t ih =>
    by_cases hc : p c = true
    · simp only [splitAtFirst?, hc, if_true, Option.some.injEq, Prod.mk.injEq] at h
      obtain ⟨rfl, rfl⟩ := h
      exact ⟨c, hc, rfl⟩
    · simp only [splitAtFirst?, hc, if_false, Option.map_eq_some_iff, Prod.mk.injEq,
        Bool.false_eq_true] at h
      obtain ⟨⟨u, v⟩, hu, rfl, rfl⟩ := h
      obtain ⟨d, hd, rfl⟩ := ih hu
      exact ⟨d, hd, rfl⟩

/-- Whether the text is at its end. -/
def atEnd? : List Char → Option Unit
  | [] => some ()
  | _ :: _ => none

/-- The shortest non-empty run without a line feed whose rest `k` accepts, and what `k` reads. -/
def shortestRun {α : Type} (k : List Char → Option α) : List Char → Option (List Char × α)
  | [] => none
  | c :: r =>
    if c = '\n' then none
    else match k r with
      | some a => some ([c], a)
      | none => (shortestRun k r).map fun (s, a) ↦ (c :: s, a)

/-- The longest run without a line feed, possibly empty, whose rest `k` accepts. -/
def longestRun {α : Type} (k : List Char → Option α) : List Char → Option (List Char × α)
  | [] => (k []).map fun a ↦ ([], a)
  | c :: r =>
    if c = '\n' then (k (c :: r)).map fun a ↦ ([], a)
    else match longestRun k r with
      | some (s, a) => some (c :: s, a)
      | none => (k (c :: r)).map fun a ↦ ([], a)

/-- The longest non-empty run without a line feed whose rest `k` accepts. -/
def longestSome {α : Type} (k : List Char → Option α) : List Char → Option (List Char × α)
  | [] => none
  | c :: r => if c = '\n' then none else (longestRun k r).map fun (s, a) ↦ (c :: s, a)

/-- The whole rest of the line, if there is any. -/
def restOfLine (cs : List Char) : Option (List Char) :=
  match cs.takeWhile (· != '\n') with
  | [] => none
  | c :: s => some (c :: s)

/-- A run and the rest after it make up the text. -/
theorem shortestRun_eq_some {α : Type} {k : List Char → Option α} {cs s : List Char} {a : α}
    (h : shortestRun k cs = some (s, a)) :
    ∃ r, cs = s ++ r ∧ k r = some a ∧ s ≠ [] ∧ '\n' ∉ s := by
  induction cs generalizing s with
  | nil => simp [shortestRun] at h
  | cons c t ih =>
    by_cases hc : c = '\n'
    · simp [shortestRun, hc] at h
    · cases hk : k t with
      | some b =>
        simp only [shortestRun, hc, if_false, hk, Option.some.injEq, Prod.mk.injEq] at h
        obtain ⟨rfl, rfl⟩ := h
        exact ⟨t, rfl, hk, by simp, by simpa using Ne.symm hc⟩
      | none =>
        simp only [shortestRun, hc, if_false, hk, Option.map_eq_some_iff] at h
        obtain ⟨⟨u, b⟩, hu, heq⟩ := h
        obtain ⟨rfl, rfl⟩ := Prod.mk.inj heq
        obtain ⟨r, rfl, hr, _, hn⟩ := ih hu
        exact ⟨r, rfl, hr, by simp, by simp [Ne.symm hc, hn]⟩

/-- A run and the rest after it make up the text. -/
theorem longestRun_eq_some {α : Type} {k : List Char → Option α} {cs s : List Char} {a : α}
    (h : longestRun k cs = some (s, a)) : ∃ r, cs = s ++ r ∧ k r = some a ∧ '\n' ∉ s := by
  induction cs generalizing s with
  | nil =>
    simp only [longestRun, Option.map_eq_some_iff, Prod.mk.injEq] at h
    obtain ⟨b, hb, rfl, rfl⟩ := h
    exact ⟨[], rfl, hb, by simp⟩
  | cons c t ih =>
    have stop : ∀ {x : Option α}, x = k (c :: t) →
        (x.map fun a ↦ (([] : List Char), a)) = some (s, a) →
        ∃ r, c :: t = s ++ r ∧ k r = some a ∧ '\n' ∉ s := by
      intro x hx h
      subst hx
      simp only [Option.map_eq_some_iff, Prod.mk.injEq] at h
      obtain ⟨b, hb, rfl, rfl⟩ := h
      exact ⟨c :: t, rfl, hb, by simp⟩
    by_cases hc : c = '\n'
    · simp only [longestRun, hc, if_true] at h
      subst hc
      exact stop rfl h
    · cases hr : longestRun k t with
      | some p =>
        obtain ⟨u, b⟩ := p
        simp only [longestRun, hc, if_false, hr, Option.some.injEq, Prod.mk.injEq] at h
        obtain ⟨rfl, rfl⟩ := h
        obtain ⟨r, rfl, hb, hn⟩ := ih hr
        exact ⟨r, rfl, hb, by simp [Ne.symm hc, hn]⟩
      | none =>
        simp only [longestRun, hc, if_false, hr] at h
        exact stop rfl h

end Text

end Haklang

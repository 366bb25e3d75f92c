import Haklang.Text.Nesting

/-!
# Scanning a text part by part

A keyword or a comma divides a text only where quotes and brackets do not hide it, and that is
decided by a scan from the left. The statements here take such a scan apart at a place where a text
is put together from two.

* `Nesting.after` is where a scan stands after a text; it goes through texts one after the other
  (`after_append`).
* `Text.Balanced` is a grammar of the texts that hide nothing after them: every quote is closed by
  its like and every bracket by a closing one. Such a text leaves a scan where it was
  (`Balanced.after_eq`), and inside brackets nothing in it divides (`Balanced.absent`,
  `Balanced.uncut`).
* `Text.Absent` says that a word stands at no place of a text where it would divide, and
  `Text.Uncut` says so of commas. Both are read along the text, so they hold of a text put together
  from two when they hold of the parts (`absent_append`, `uncut_append`). What follows the text
  matters to `Absent`, since a word could begin in the text and end behind it; this cannot happen
  where the last character of the text is none of the word's, or where the next character is
  none (`Absent.of_bounded`).

From these follow the two divisions: around the first place of a word (`splitAtWord?_of_absent`)
and at a comma behind a text that has none (`pieces_append_comma`).
-/

namespace Haklang

namespace Nesting

/-- The nesting after a text. -/
def after (b : Brackets) (n : Nesting) (cs : List Char) : Nesting := cs.foldl (step b) n

@[simp] theorem after_nil (b : Brackets) (n : Nesting) : n.after b [] = n := rfl

@[simp] theorem after_cons (b : Brackets) (n : Nesting) (c : Char) (cs : List Char) :
    n.after b (c :: cs) = (n.step b c).after b cs := rfl

/-- A scan goes through texts one after the other. -/
theorem after_append (b : Brackets) (n : Nesting) (p q : List Char) :
    n.after b (p ++ q) = (n.after b p).after b q :=
  List.foldl_append

/-- Whether a character opens a quote. -/
def IsQuote (c : Char) : Prop := c = '\'' ∨ c = '"'

instance (c : Char) : Decidable (IsQuote c) := inferInstanceAs (Decidable (_ ∨ _))

/-- Whether a scan passes over a character outside quotes. -/
def IsPlain (b : Brackets) (c : Char) : Prop := ¬ IsQuote c ∧ c ∉ b.opening ∧ c ∉ b.closing

instance (b : Brackets) (c : Char) : Decidable (IsPlain b c) :=
  inferInstanceAs (Decidable (_ ∧ _))

variable {b : Brackets} {c q : Char} {d : Nat}

/-- Outside quotes a character opens a quote, opens or closes a bracket, or is passed over; a
closing bracket that closes nothing is passed over, too. -/
theorem step_none : step b ⟨none, d⟩ c =
    if IsQuote c then ⟨some c, d⟩
    else if c ∈ b.opening then ⟨none, d + 1⟩
    else if c ∈ b.closing then ⟨none, d - 1⟩
    else ⟨none, d⟩ :=
  rfl

/-- Inside quotes nothing counts but the same quote. -/
theorem step_some : step b ⟨some q, d⟩ c = if c = q then ⟨none, d⟩ else ⟨some q, d⟩ := rfl

theorem step_of_isPlain (h : IsPlain b c) : step b ⟨none, d⟩ c = ⟨none, d⟩ := by
  rw [step_none, if_neg h.1, if_neg h.2.1, if_neg h.2.2]

/-- A quote is closed by its like only, so the scan keeps the character. -/
theorem step_of_isQuote (h : IsQuote q) : step b ⟨none, d⟩ q = ⟨some q, d⟩ := by
  rw [step_none, if_pos h]

theorem step_of_mem_opening (hq : ¬ IsQuote c) (h : c ∈ b.opening) :
    step b ⟨none, d⟩ c = ⟨none, d + 1⟩ := by
  rw [step_none, if_neg hq, if_pos h]

/-- A closing bracket undoes an opening one. -/
theorem step_of_mem_closing (hq : ¬ IsQuote c) (ho : c ∉ b.opening) (h : c ∈ b.closing) :
    step b ⟨none, d + 1⟩ c = ⟨none, d⟩ := by
  rw [step_none, if_neg hq, if_neg ho, if_pos h, Nat.add_sub_cancel]

/-- In a quote nothing but its like is looked at. -/
theorem after_of_not_mem {s : List Char} (h : q ∉ s) :
    after b ⟨some q, d⟩ s = ⟨some q, d⟩ := by
  induction s with
  | nil => rfl
  | cons c s ih =>
    rw [List.mem_cons, not_or] at h
    rw [after_cons, step_some, if_neg (Ne.symm h.1), ih h.2]

/-- There is only one state in which a text divides: in no quote and in no bracket. -/
theorem eq_of_outside {n : Nesting} (h : n.outside = true) : n = ⟨none, 0⟩ := by
  obtain ⟨_ | q, _ | d⟩ := n
  · rfl
  · exact absurd h (by simp [outside])
  · cases h
  · cases h

theorem not_outside_quote : ¬ (⟨some q, d⟩ : Nesting).outside = true := Bool.false_ne_true

theorem not_outside_succ : ¬ (⟨none, d + 1⟩ : Nesting).outside = true := by simp [outside]

end Nesting

open Nesting

namespace Text

/-! ### Texts that hide nothing after them -/

/-- A text in which every quote and every bracket is closed. -/
inductive Balanced (b : Brackets) : List Char → Prop where
  /-- The empty text. -/
  | nil : Balanced b []
  /-- A character that neither quotes nor brackets. -/
  | plain {c : Char} {p : List Char} (hc : IsPlain b c) (hp : Balanced b p) : Balanced b (c :: p)
  /-- Text between quotes of one kind. -/
  | quoted {q : Char} {s p : List Char} (hq : IsQuote q) (hs : q ∉ s) (hp : Balanced b p) :
      Balanced b (q :: (s ++ q :: p))
  /-- A balanced text between brackets. -/
  | bracketed {o c : Char} {s p : List Char} (ho : ¬ IsQuote o ∧ o ∈ b.opening)
      (hc : ¬ IsQuote c ∧ c ∉ b.opening ∧ c ∈ b.closing) (hs : Balanced b s)
      (hp : Balanced b p) : Balanced b (o :: (s ++ c :: p))

namespace Balanced

variable {b : Brackets} {p q : List Char}

/-- Balanced texts may follow each other. -/
theorem append (hp : Balanced b p) (hq : Balanced b q) : Balanced b (p ++ q) := by
  induction hp with
  | nil => exact hq
  | plain hc _ ih => exact .plain hc ih
  | @quoted c s p hc hs _ ih =>
    rw [List.cons_append, List.append_assoc]
    exact .quoted hc hs ih
  | @bracketed o c s p ho hc hs _ _ ih =>
    rw [List.cons_append, List.append_assoc]
    exact .bracketed ho hc hs ih

/-- A text without quotes and brackets is balanced. -/
theorem of_isPlain (h : ∀ c ∈ p, IsPlain b c) : Balanced b p := by
  induction p with
  | nil => exact .nil
  | cons c p ih =>
    exact .plain (h c List.mem_cons_self) (ih fun d hd ↦ h d (List.mem_cons_of_mem c hd))

/-- A balanced text leaves a scan where it was, at any depth. -/
theorem after_eq (h : Balanced b p) (d : Nat) : after b ⟨none, d⟩ p = ⟨none, d⟩ := by
  induction h generalizing d with
  | nil => rfl
  | plain hc _ ih => rw [after_cons, step_of_isPlain hc, ih]
  | quoted hq hs _ ih =>
    rw [after_cons, step_of_isQuote hq, after_append, after_of_not_mem hs, after_cons, step_some,
      if_pos rfl, ih]
  | bracketed ho hc _ _ ihs ih =>
    rw [after_cons, step_of_mem_opening ho.1 ho.2, after_append, ihs, after_cons,
      step_of_mem_closing hc.1 hc.2.1 hc.2.2, ih]

end Balanced

/-! ### Words -/

/-- There is nothing after a word if the text does not begin with it. -/
theorem after?_eq_none_iff {w cs : List Char} : after? w cs = none ↔ ¬ w <+: cs := by
  rw [Option.eq_none_iff_forall_ne_some]
  simp only [ne_eq, after?_eq_some_iff]
  exact ⟨fun h ⟨r, hr⟩ ↦ h r hr.symm, fun h r hr ↦ h ⟨r, hr.symm⟩⟩

/-- The word `w` stands at no place of `p`, with `rest` behind it, where it would divide. -/
def Absent (w : List Char) : Nesting → List Char → List Char → Prop
  | _, [], _ => True
  | n, c :: p, rest =>
    (n.outside = true → ¬ w <+: c :: (p ++ rest)) ∧ Absent w (n.step .round c) p rest

section Absent

variable {w p q rest : List Char} {n : Nesting}

@[simp] theorem absent_nil : Absent w n [] rest := trivial

/-- A word is absent from two texts in a row if it is absent from each, the first one with the
second behind it and the second one where the scan of the first has got to. -/
theorem absent_append :
    Absent w n (p ++ q) rest ↔
      Absent w n p (q ++ rest) ∧ Absent w (n.after .round p) q rest := by
  induction p generalizing n with
  | nil => simp
  | cons c p ih =>
    rw [List.cons_append, Absent, Absent, ih, after_cons, List.append_assoc, and_assoc]

/-- A word that is absent from a text is looked for behind it. -/
theorem splitAtWordFrom?_append (h : Absent w n p rest) :
    splitAtWordFrom? w n (p ++ rest) =
      (splitAtWordFrom? w (n.after .round p) rest).map fun (l, r) ↦ (p ++ l, r) := by
  induction p generalizing n with
  | nil => simp
  | cons c p ih =>
    have hhead : (if n.outside = true then after? w (c :: (p ++ rest)) else none) = none := by
      split
      case isTrue ho => exact after?_eq_none_iff.2 (h.1 ho)
      case isFalse => rfl
    rw [List.cons_append, splitAtWordFrom?, hhead]
    show Option.map _ (splitAtWordFrom? w (n.step .round c) (p ++ rest)) = _
    rw [ih h.2, Option.map_map]
    rfl

/-- A text is not divided exactly if the word is absent from it. -/
theorem splitAtWordFrom?_eq_none_iff :
    splitAtWordFrom? w n p = none ↔ Absent w n p [] := by
  induction p generalizing n with
  | nil => simp [splitAtWordFrom?]
  | cons c p ih =>
    rw [splitAtWordFrom?, Absent, List.append_nil, ← ih, ← after?_eq_none_iff]
    by_cases ho : n.outside = true
    · cases after? w (c :: p) <;> simp [ho]
    · simp [ho]

/-- What keeps a word from beginning in a text and ending behind it. -/
theorem prefix_of_prefix_append {s : List Char} (h : w <+: s ++ rest)
    (hs : (∀ c ∈ s.getLast?, c ∉ w) ∨ (∀ c ∈ rest.head?, c ∉ w)) (hne : s ≠ []) : w <+: s := by
  rcases List.prefix_or_prefix_of_prefix h (List.prefix_append s rest) with hw | ⟨t, rfl⟩
  · exact hw
  · rw [List.prefix_append_right_inj] at h
    cases t with
    | nil => simp
    | cons c t =>
      rcases hs with hs | hs
      · exact absurd (List.mem_append_left _ (List.getLast_mem hne))
          (hs _ (List.getLast?_eq_some_getLast hne))
      · obtain ⟨r, rfl, _⟩ := List.cons_prefix_iff.1 h
        exact absurd (List.mem_append_right _ List.mem_cons_self) (hs c rfl)

/-- What follows does not matter if no occurrence can reach over the end: the last character of the
text is none of the word's, or the next one behind it is none. -/
theorem Absent.of_bounded (h : Absent w n p [])
    (hb : (∀ c ∈ p.getLast?, c ∉ w) ∨ (∀ c ∈ rest.head?, c ∉ w)) : Absent w n p rest := by
  induction p generalizing n with
  | nil => trivial
  | cons c p ih =>
    rw [Absent, List.append_nil] at h
    refine ⟨fun ho hw ↦ h.1 ho (prefix_of_prefix_append hw hb (List.cons_ne_nil c p)), ?_⟩
    refine ih h.2 (hb.imp_left fun hl d hd ↦ hl d ?_)
    rw [List.getLast?_cons, Option.mem_def.1 hd]
    rfl

/-- A word that is no part of a text is absent from it, whatever the scan hides. -/
theorem Absent.of_not_isInfix (h : ¬ w <:+: p) : Absent w n p [] := by
  induction p generalizing n with
  | nil => trivial
  | cons c p ih =>
    rw [Absent, List.append_nil]
    exact ⟨fun _ hw ↦ h hw.isInfix, ih fun hw ↦ h (List.infix_cons_iff.2 (.inr hw))⟩

/-- A text that begins with a character which is none of the word's does not begin with the word. -/
theorem not_prefix_cons {c : Char} (hw : w ≠ []) (hc : c ∉ w) : ¬ w <+: c :: p := by
  cases w with
  | nil => exact absurd rfl hw
  | cons a w =>
    rw [List.cons_prefix_cons]
    rintro ⟨rfl, _⟩
    exact hc List.mem_cons_self

/-- A word is absent from characters that it does not have. -/
theorem Absent.of_forall_not_mem (hw : w ≠ []) (h : ∀ c ∈ p, c ∉ w) : Absent w n p rest := by
  induction p generalizing n with
  | nil => trivial
  | cons c p ih =>
    exact ⟨fun _ ↦ not_prefix_cons hw (h c List.mem_cons_self),
      ih fun d hd ↦ h d (List.mem_cons_of_mem c hd)⟩

/-- In a quote that is not closed no word divides. -/
theorem absent_of_quote {c : Char} {d : Nat} (hp : c ∉ p) : Absent w ⟨some c, d⟩ p rest := by
  induction p with
  | nil => trivial
  | cons a p ih =>
    rw [List.mem_cons, not_or] at hp
    refine ⟨fun ho ↦ absurd ho not_outside_quote, ?_⟩
    rw [step_some, if_neg (Ne.symm hp.1)]
    exact ih hp.2

/-- Between quotes no word divides. -/
theorem absent_quoted {c : Char} {d : Nat} (hw : w ≠ []) (hc : IsQuote c) (hcw : c ∉ w)
    (hp : c ∉ p) : Absent w ⟨none, d⟩ (c :: (p ++ [c])) rest := by
  refine ⟨fun _ ↦ not_prefix_cons hw hcw, ?_⟩
  rw [step_of_isQuote hc, absent_append, after_of_not_mem hp]
  exact ⟨absent_of_quote hp, fun ho ↦ absurd ho not_outside_quote, trivial⟩

/-- At every place of a text that is outside quotes and parentheses no word begins. -/
theorem absent_iff :
    Absent w n p rest ↔ ∀ u v, p = u ++ v → v ≠ [] → (n.after .round u).outside = true →
      ¬ w <+: v ++ rest := by
  induction p generalizing n with
  | nil =>
    refine ⟨fun _ u v huv hv ↦ absurd ?_ hv, fun _ ↦ trivial⟩
    exact (List.append_eq_nil_iff.1 huv.symm).2
  | cons c p ih =>
    rw [Absent, ih]
    constructor
    · rintro ⟨hhead, htail⟩ (_ | ⟨a, u⟩) v huv hv ho
      · rw [List.nil_append] at huv
        rw [← huv]
        exact hhead ho
      · obtain ⟨rfl, rfl⟩ := List.cons.inj huv
        exact htail u v rfl hv ho
    · refine fun h ↦ ⟨fun ho ↦ h [] (c :: p) rfl (List.cons_ne_nil c p) ho, fun u v huv hv ho ↦ ?_⟩
      exact h (c :: u) v (by rw [huv]; rfl) hv ho

/-- A text may be cut off behind the part from which a word is absent. -/
theorem Absent.cut (h : Absent w n p rest) : Absent w n p [] := by
  rw [absent_iff] at h ⊢
  intro u v huv hv ho hw
  rw [List.append_nil] at hw
  exact h u v huv hv ho (hw.trans (List.prefix_append v rest))

/-- With a word all words are absent that hold it and open nothing. -/
theorem Absent.of_isInfix {w' : List Char} (h : Absent w n p []) (hw : w ≠ []) (hww : w <:+: w')
    (hplain : ∀ c ∈ w', IsPlain .round c) : Absent w' n p [] := by
  rw [absent_iff] at h ⊢
  rintro u v rfl hv ho ⟨t, ht⟩
  obtain ⟨s, s', rfl⟩ := hww
  rw [List.append_nil] at ht
  subst ht
  have hn : n.after .round u = ⟨none, 0⟩ := eq_of_outside ho
  have hs : Balanced .round s :=
    .of_isPlain fun c hc ↦ hplain c (List.mem_append_left _ (List.mem_append_left _ hc))
  -- What stands before the shorter word opens nothing, so the scan is still outside there.
  refine h (u ++ s) (w ++ (s' ++ t)) (by simp) (List.append_ne_nil_of_left_ne_nil hw _) ?_ ?_
  · rw [after_append, hn, hs.after_eq]
    rfl
  · rw [List.append_nil]
    exact List.prefix_append w (s' ++ t)

/-- A word that is absent from a text which opens nothing is no part of it. -/
theorem not_isInfix_of_absent (h : Absent w {} p rest) (hw : w ≠ [])
    (hplain : ∀ c ∈ p, IsPlain .round c) : ¬ w <:+: p := by
  rintro ⟨u, v, rfl⟩
  rw [List.append_assoc] at h hplain
  have hu : Balanced .round u := .of_isPlain fun c hc ↦ hplain c (List.mem_append_left _ hc)
  refine absent_iff.1 h u (w ++ v) rfl (List.append_ne_nil_of_left_ne_nil hw v) ?_ ?_
  · rw [hu.after_eq]
    rfl
  · rw [List.append_assoc]
    exact List.prefix_append w (v ++ rest)

/-- A division is at the first place of the word, outside quotes and parentheses. -/
theorem absent_of_splitAtWordFrom? {l r : List Char}
    (h : splitAtWordFrom? w n p = some (l, r)) :
    Absent w n l (w ++ r) ∧ (n.after .round l).outside = true := by
  induction p generalizing n l with
  | nil => cases h
  | cons c p ih =>
    rw [splitAtWordFrom?] at h
    split at h
    case h_1 rest' hw =>
      obtain ⟨rfl, rfl⟩ := Prod.mk.inj (Option.some.inj h)
      refine ⟨trivial, Decidable.byContradiction fun ho ↦ ?_⟩
      rw [after_nil] at ho
      rw [if_neg ho] at hw
      cases hw
    case h_2 hw =>
      obtain ⟨⟨u, v⟩, hu, heq⟩ := Option.map_eq_some_iff.1 h
      obtain ⟨rfl, rfl⟩ := Prod.mk.inj heq
      obtain ⟨habsent, ho⟩ := ih hu
      refine ⟨⟨fun hn ↦ ?_, habsent⟩, ho⟩
      rw [if_pos hn, after?_eq_none_iff, splitAtWordFrom?_eq_some hu, List.append_assoc] at hw
      exact hw

/-- The word that divides a text is absent from the left side. -/
theorem absent_left_of_splitAtWord? {l r : List Char} (h : splitAtWord? w p = some (l, r)) :
    Absent w {} l [] :=
  (absent_of_splitAtWordFrom? h).1.cut

/-- Where a text is divided at a word, the word was not absent. -/
theorem not_absent_of_splitAtWord? {l r : List Char} (h : splitAtWord? w p = some (l, r)) :
    ¬ Absent w {} p [] := fun habsent ↦ by
  rw [splitAtWord?, splitAtWordFrom?_eq_none_iff.2 habsent] at h
  cases h

/-- A word that is absent from a text is absent from both sides of a division at another word, one
that opens nothing. -/
theorem Absent.sides {w' l r : List Char} (h : Absent w {} p [])
    (hsplit : splitAtWord? w' p = some (l, r)) (hw' : ({} : Nesting).after .round w' = {}) :
    Absent w {} l [] ∧ Absent w {} r [] := by
  obtain ⟨-, hout⟩ := absent_of_splitAtWordFrom? hsplit
  rw [splitAtWord?_eq_some hsplit, List.append_assoc, absent_append, eq_of_outside hout,
    absent_append, hw'] at h
  exact ⟨h.1.cut, h.2.2⟩

/-- Inside brackets no word divides a balanced text. -/
theorem Balanced.absent (h : Balanced .round p) (d : Nat) : Absent w ⟨none, d + 1⟩ p rest := by
  have inside {d : Nat} {cs : List Char} :
      (⟨none, d + 1⟩ : Nesting).outside = true → ¬ w <+: cs :=
    fun ho ↦ absurd ho not_outside_succ
  induction h generalizing d rest with
  | nil => trivial
  | plain hc _ ih =>
    refine ⟨inside, ?_⟩
    rw [step_of_isPlain hc]
    exact ih d
  | quoted hq hs _ ih =>
    refine ⟨inside, ?_⟩
    rw [step_of_isQuote hq, absent_append, after_of_not_mem hs]
    refine ⟨absent_of_quote hs, fun ho ↦ absurd ho not_outside_quote, ?_⟩
    rw [step_some, if_pos rfl]
    exact ih d
  | bracketed ho hc hs _ ihs ih =>
    refine ⟨inside, ?_⟩
    rw [step_of_mem_opening ho.1 ho.2, absent_append, hs.after_eq]
    refine ⟨ihs (d + 1), inside, ?_⟩
    rw [step_of_mem_closing hc.1 hc.2.1 hc.2.2]
    exact ih d

/-- Between brackets no word divides, as long as it does not begin with the opening one. -/
theorem absent_bracketed {o c : Char} (hw : w ≠ []) (how : o ∉ w)
    (ho : ¬ IsQuote o ∧ o ∈ Brackets.round.opening) (h : Balanced .round p) :
    Absent w {} (o :: (p ++ [c])) rest := by
  refine ⟨fun _ ↦ not_prefix_cons hw how, ?_⟩
  rw [step_of_mem_opening ho.1 ho.2, absent_append, h.after_eq]
  exact ⟨h.absent 0, fun ho ↦ absurd ho not_outside_succ, trivial⟩

/-- A text is divided around the first place of a word. -/
theorem splitAtWord?_of_absent (hw : w ≠ []) (h : Absent w {} p (w ++ rest))
    (hp : ({} : Nesting).after .round p = {}) :
    splitAtWord? w (p ++ (w ++ rest)) = some (p, rest) := by
  have hword : splitAtWordFrom? w {} (w ++ rest) = some ([], rest) := by
    cases w with
    | nil => exact absurd rfl hw
    | cons a w =>
      have hafter : (if ({} : Nesting).outside = true then after? (a :: w) (a :: (w ++ rest))
          else none) = some rest := after?_append (a :: w) rest
      rw [List.cons_append, splitAtWordFrom?, hafter]
  rw [splitAtWord?, splitAtWordFrom?_append h, hp, hword, Option.map_some]
  show some (p ++ [], rest) = some (p, rest)
  rw [List.append_nil]

end Absent

/-! ### Commas -/

/-- No comma of a text divides it. -/
def Uncut : Nesting → List Char → Prop
  | _, [] => True
  | n, c :: p => ¬ (c = ',' ∧ n.outside = true) ∧ Uncut (n.step .roundAndSquare c) p

section Uncut

variable {p q rest : List Char} {n : Nesting}

@[simp] theorem uncut_nil : Uncut n [] := trivial

/-- No comma divides two texts in a row if none divides either of them, the second one where the
scan of the first has got to. -/
theorem uncut_append :
    Uncut n (p ++ q) ↔ Uncut n p ∧ Uncut (n.after .roundAndSquare p) q := by
  induction p generalizing n with
  | nil => simp
  | cons c p ih => rw [List.cons_append, Uncut, Uncut, ih, after_cons, and_assoc]

/-- In a quote that is not closed no comma divides. -/
theorem uncut_of_quote {c : Char} {d : Nat} (hp : c ∉ p) : Uncut ⟨some c, d⟩ p := by
  induction p with
  | nil => trivial
  | cons a p ih =>
    rw [List.mem_cons, not_or] at hp
    refine ⟨fun h ↦ not_outside_quote h.2, ?_⟩
    rw [step_some, if_neg (Ne.symm hp.1)]
    exact ih hp.2

/-- A text without commas is not divided. -/
theorem Uncut.of_not_mem (h : ',' ∉ p) : Uncut n p := by
  induction p generalizing n with
  | nil => trivial
  | cons c p ih =>
    rw [List.mem_cons, not_or] at h
    exact ⟨fun hc ↦ h.1 hc.1.symm, ih h.2⟩

/-- Between quotes no comma divides. -/
theorem uncut_quoted {c : Char} {d : Nat} (hc : IsQuote c) (hp : c ∉ p) :
    Uncut ⟨none, d⟩ (c :: (p ++ [c])) := by
  have hne : c ≠ ',' := by rintro rfl; exact absurd hc (by decide)
  refine ⟨fun h ↦ hne h.1, ?_⟩
  rw [step_of_isQuote hc, uncut_append]
  exact ⟨uncut_of_quote hp, fun h ↦ hne h.1, trivial⟩

/-- Inside brackets no comma divides a balanced text. -/
theorem Balanced.uncut (h : Balanced .roundAndSquare p) (d : Nat) : Uncut ⟨none, d + 1⟩ p := by
  have inside {d : Nat} {c : Char} : ¬ (c = ',' ∧ (⟨none, d + 1⟩ : Nesting).outside = true) :=
    fun ho ↦ not_outside_succ ho.2
  induction h generalizing d with
  | nil => trivial
  | plain hc _ ih =>
    refine ⟨inside, ?_⟩
    rw [step_of_isPlain hc]
    exact ih d
  | quoted hq hs _ ih =>
    refine ⟨inside, ?_⟩
    rw [step_of_isQuote hq, uncut_append, after_of_not_mem hs]
    refine ⟨uncut_of_quote hs, fun h ↦ not_outside_quote h.2, ?_⟩
    rw [step_some, if_pos rfl]
    exact ih d
  | bracketed ho hc hs _ ihs ih =>
    refine ⟨inside, ?_⟩
    rw [step_of_mem_opening ho.1 ho.2, uncut_append, hs.after_eq]
    refine ⟨ihs (d + 1), inside, ?_⟩
    rw [step_of_mem_closing hc.1 hc.2.1 hc.2.2]
    exact ih d

/-- Between brackets no comma divides. -/
theorem uncut_bracketed {o c : Char} (ho : ¬ IsQuote o ∧ o ∈ Brackets.roundAndSquare.opening)
    (hne : o ≠ ',') (h : Balanced .roundAndSquare p) : Uncut {} (o :: (p ++ [c])) := by
  refine ⟨fun hc ↦ hne hc.1, ?_⟩
  rw [step_of_mem_opening ho.1 ho.2, uncut_append, h.after_eq]
  exact ⟨h.uncut 0, fun hc ↦ not_outside_succ hc.2, trivial⟩

/-- A text without dividing commas belongs to the first piece. -/
theorem pieces_append (h : Uncut n p) :
    pieces n (p ++ rest) =
      (p ++ (pieces (n.after .roundAndSquare p) rest).1,
        (pieces (n.after .roundAndSquare p) rest).2) := by
  induction p generalizing n with
  | nil => rfl
  | cons c p ih => rw [List.cons_append, pieces, if_neg h.1, ih h.2, after_cons, List.cons_append]

/-- A comma behind a text without dividing commas ends the first piece. -/
theorem pieces_append_comma (h : Uncut n p)
    (hn : (n.after .roundAndSquare p).outside = true) :
    pieces n (p ++ ',' :: rest) =
      (p, (pieces (n.after .roundAndSquare p) rest).1 ::
        (pieces (n.after .roundAndSquare p) rest).2) := by
  rw [pieces_append h, pieces, if_pos ⟨rfl, hn⟩, List.append_nil]

end Uncut

/-! ### Blanks at the ends -/

/-- Neither end of a text is blank. -/
def Tight (p : List Char) : Prop :=
  (∀ c ∈ p.head?, isBlank c = false) ∧ ∀ c ∈ p.getLast?, isBlank c = false

instance (p : List Char) : Decidable (Tight p) :=
  @instDecidableAnd _ _ p.head?.decidableForallMem p.getLast?.decidableForallMem

section Tight

variable {p l r : List Char}

/-- Characters are dropped from the front of the first text only, if it begins with one that stays.
-/
theorem dropWhile_append_of_head? {f : Char → Bool} (hne : p ≠ [])
    (hp : ∀ c ∈ p.head?, f c = false) : (p ++ r).dropWhile f = p ++ r := by
  cases p with
  | nil => exact absurd rfl hne
  | cons c p => rw [List.cons_append, List.dropWhile_cons_of_neg (by simp [hp c rfl])]

/-- Trimming takes away the blanks around a text whose ends are not blank. -/
theorem trim_append_append (hne : p ≠ []) (hp : Tight p) (hl : ∀ c ∈ l, isBlank c = true)
    (hr : ∀ c ∈ r, isBlank c = true) : trim (l ++ (p ++ r)) = p := by
  have hstart : trimStart (l ++ (p ++ r)) = p ++ r := by
    rw [trimStart, List.dropWhile_append_of_pos hl, dropWhile_append_of_head? hne hp.1]
  have hend : (r.reverse ++ (p.reverse ++ [])).dropWhile isBlank = p.reverse ++ [] := by
    rw [List.dropWhile_append_of_pos fun c hc ↦ hr c (List.mem_reverse.1 hc),
      dropWhile_append_of_head? (by simpa using hne) (by simpa using hp.2)]
  rw [trim, hstart, trimEnd, List.reverse_append, ← List.append_nil p.reverse, hend,
    List.append_nil, List.reverse_reverse]

/-- A tight text has nothing to trim. -/
theorem trim_of_tight (hne : p ≠ []) (hp : Tight p) : trim p = p := by
  simpa using trim_append_append (l := []) (r := []) hne hp (by simp) (by simp)

/-- What stands between two texts does not matter for the ends. -/
theorem Tight.append_append (hl : Tight l) (hlne : l ≠ []) (m : List Char) (hr : Tight r)
    (hrne : r ≠ []) : Tight (l ++ (m ++ r)) := by
  refine ⟨fun c hc ↦ hl.1 c ?_, fun c hc ↦ hr.2 c ?_⟩
  · rwa [List.head?_append, List.head?_eq_some_head hlne, Option.some_or,
      ← List.head?_eq_some_head hlne] at hc
  · rwa [← List.append_assoc, List.getLast?_append, List.getLast?_eq_some_getLast hrne,
      Option.some_or, ← List.getLast?_eq_some_getLast hrne] at hc

/-- Trimming takes away nothing but blanks. -/
theorem exists_eq_trim (cs : List Char) : ∃ l r, cs = l ++ (trim cs ++ r) ∧
    (∀ c ∈ l, isBlank c = true) ∧ ∀ c ∈ r, isBlank c = true := by
  have hmem {p : List Char} : ∀ c ∈ p.takeWhile isBlank, isBlank c = true :=
    List.all_eq_true.1 List.all_takeWhile
  refine ⟨cs.takeWhile isBlank, ((trimStart cs).reverse.takeWhile isBlank).reverse, ?_, hmem,
    fun c hc ↦ hmem c (List.mem_reverse.1 hc)⟩
  rw [trim, trimEnd, ← List.reverse_append, List.takeWhile_append_dropWhile, List.reverse_reverse,
    trimStart, List.takeWhile_append_dropWhile]

/-- A text with a character that is not blank is not trimmed away. -/
theorem trim_ne_nil {cs : List Char} {c : Char} (hc : c ∈ cs) (hblank : isBlank c = false) :
    trim cs ≠ [] := by
  intro htrim
  obtain ⟨l, r, hcs, hl, hr⟩ := exists_eq_trim cs
  rw [htrim, List.nil_append] at hcs
  rw [hcs] at hc
  have hboth := List.forall_mem_append.2 ⟨hl, hr⟩ c hc
  rw [hblank] at hboth
  cases hboth

/-- What is left of a text without its blanks has no blanks at its ends. -/
theorem tight_trim (cs : List Char) : Tight (trim cs) := by
  have hdrop (p : List Char) : ∀ c ∈ (p.dropWhile isBlank).head?, isBlank c = false := fun c hc ↦ by
    have h := List.head?_dropWhile_not isBlank p
    rw [Option.mem_def.1 hc] at h
    simpa using h
  refine ⟨fun c hc ↦ ?_, fun c hc ↦ hdrop (trimStart cs).reverse c ?_⟩
  · -- nothing is taken away at the start but blanks, and what is taken away at the end is behind it
    have hprefix : trim cs <+: trimStart cs := by
      rw [trim, trimEnd, ← List.reverse_suffix, List.reverse_reverse]
      exact List.dropWhile_suffix isBlank
    refine hdrop cs c ?_
    obtain ⟨rest, hrest⟩ := hprefix
    rw [← trimStart, ← hrest, List.head?_append, Option.mem_def.1 hc]
    rfl
  · rwa [trim, trimEnd, List.getLast?_reverse] at hc

/-- Trimming once is enough. -/
theorem trim_trim (cs : List Char) : trim (trim cs) = trim cs := by
  by_cases h : trim cs = []
  · rw [h, trim_nil]
  · exact trim_of_tight h (tight_trim cs)

/-- Blanks behind a text are trimmed away. -/
theorem trim_append_of_blank (cs : List Char) (hr : ∀ c ∈ r, isBlank c = true) :
    trim (cs ++ r) = trim cs := by
  obtain ⟨l, r', hcs, hl, hr'⟩ := exists_eq_trim cs
  have hends : ∀ c ∈ r' ++ r, isBlank c = true := List.forall_mem_append.2 ⟨hr', hr⟩
  by_cases h : trim cs = []
  · rw [h, List.nil_append] at hcs
    have hall : ∀ c ∈ cs ++ r, isBlank c = true := by
      rw [hcs, List.append_assoc]
      exact List.forall_mem_append.2 ⟨hl, hends⟩
    rw [h, trim, trimStart, ← List.append_nil (cs ++ r), List.dropWhile_append_of_pos hall]
    rfl
  · have happend : cs ++ r = l ++ (trim cs ++ (r' ++ r)) :=
      (congrArg (· ++ r) hcs).trans (by simp only [List.append_assoc])
    rw [happend, trim_append_append h (tight_trim cs) hl hends]

/-- A scan passes over blanks, unless one is a bracket. -/
theorem isPlain_of_isBlank {b : Brackets} (hb : (b.opening ++ b.closing).any isBlank = false)
    {c : Char} (h : isBlank c = true) : IsPlain b c := by
  have hbracket : c ∉ b.opening ++ b.closing := fun hc ↦ List.any_eq_false.1 hb c hc h
  rw [List.mem_append, not_or] at hbracket
  refine ⟨?_, hbracket⟩
  rintro (rfl | rfl)
  · exact absurd h (by decide)
  · exact absurd h (by decide)

/-- What is absent from a text is absent from it without its blanks. -/
theorem Absent.trim {w cs : List Char} (h : Absent w {} cs []) : Absent w {} (trim cs) [] := by
  obtain ⟨l, r, heq, hl, _⟩ := exists_eq_trim cs
  have hafter : ({} : Nesting).after .round l = {} :=
    (Balanced.of_isPlain fun c hc ↦ isPlain_of_isBlank rfl (hl c hc)).after_eq 0
  rw [heq, absent_append, hafter, absent_append] at h
  exact h.2.1.cut

/-- A word without blanks that is absent from a text is absent from it with blanks around it. -/
theorem Absent.of_trim {w cs : List Char} (h : Absent w {} (Text.trim cs) []) (hne : w ≠ [])
    (hw : ∀ c ∈ w, isBlank c = false) : Absent w {} cs [] := by
  have hblank {c : Char} (hc : isBlank c = true) : c ∉ w := fun hmem ↦ by
    rw [hw c hmem] at hc
    cases hc
  obtain ⟨l, r, heq, hl, hr⟩ := exists_eq_trim cs
  have hafter : ({} : Nesting).after .round l = {} :=
    (Balanced.of_isPlain fun c hc ↦ isPlain_of_isBlank rfl (hl c hc)).after_eq 0
  rw [heq, absent_append, hafter, absent_append]
  refine ⟨.of_forall_not_mem hne fun c hc ↦ hblank (hl c hc), h.of_bounded (.inr fun c hc ↦ ?_),
    .of_forall_not_mem hne fun c hc ↦ hblank (hr c hc)⟩
  rw [List.append_nil] at hc
  exact hblank (hr c (List.mem_of_head? hc))

end Tight

end Text

end Haklang

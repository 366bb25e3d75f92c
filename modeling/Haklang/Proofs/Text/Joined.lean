import Mathlib.Data.List.Basic
import Mathlib.Tactic.Choose
import Haklang.Proofs.Text.Scan

/-!
# Arguments between commas

Cutting a text at its commas and joining texts with commas undo each other. What a text is cut into
is joined to that text again (`intercalate_parts`), and texts that are joined come back from the
cut (`parts_intercalate`), as long as the commas between them are the ones that divide. `Parted`
says of which texts this holds: a scan goes through each of them from outside to outside, with no
comma where it is outside (`Piece`). The last one may leave quotes and brackets open, since no comma
is behind it.

Everything here is proved along the dividing commas of a text (`comma_induction`). The scan is
outside at each of them, so what stands behind one is cut as a text of its own, and the nesting is
generalised only where the first of them is found (`uncut_or_exists_comma`).

Arguments are parts without the blanks around them. A scan passes over blanks, so blanks around a
piece make another piece (`Spaced.piece_text`), and arguments may be joined with any blanks next to
the commas and at the ends (`splitAtCommas_joined`).
-/

namespace Haklang

-- Statements on the members of a list are decided along the list, whatever other instances are in
-- sight.
attribute [local instance (high)] List.decidableBAll

open Nesting

namespace Text

variable {p q rest : List Char} {ps : List (List Char)} {n : Nesting}

/-! ### Pieces -/

instance decidableUncut : (n : Nesting) → (p : List Char) → Decidable (Uncut n p)
  | _, [] => isTrue trivial
  | n, c :: p =>
    have := decidableUncut (n.step .roundAndSquare c) p
    inferInstanceAs (Decidable (¬ (c = ',' ∧ n.outside = true) ∧ _))

/-- A text through which a scan goes from outside to outside, with no comma where it is outside. -/
structure Piece (p : List Char) : Prop where
  /-- No comma divides the text. -/
  uncut : Uncut {} p
  /-- Quotes and brackets are closed behind it. -/
  outside : (({} : Nesting).after .roundAndSquare p).outside = true

instance (p : List Char) : Decidable (Piece p) :=
  decidable_of_iff (Uncut {} p ∧ (({} : Nesting).after .roundAndSquare p).outside = true)
    ⟨fun h ↦ ⟨h.1, h.2⟩, fun h ↦ ⟨h.uncut, h.outside⟩⟩

/-- Behind a piece a scan is outside again. -/
theorem Piece.after_eq (h : Piece p) : ({} : Nesting).after .roundAndSquare p = {} :=
  eq_of_outside h.outside

/-- Pieces may follow each other. -/
theorem Piece.append (hp : Piece p) (hq : Piece q) : Piece (p ++ q) := by
  constructor
  · rw [uncut_append, hp.after_eq]
    exact ⟨hp.uncut, hq.uncut⟩
  · rw [after_append, hp.after_eq]
    exact hq.outside

/-- Blanks are a piece, since a scan passes over them. -/
theorem piece_of_isBlank (h : ∀ c ∈ p, isBlank c = true) : Piece p := by
  have hplain : Balanced .roundAndSquare p :=
    .of_isPlain fun c hc ↦ isPlain_of_isBlank rfl (h c hc)
  refine ⟨.of_not_mem fun hc ↦ absurd (h _ hc) (by decide), ?_⟩
  rw [hplain.after_eq]
  rfl

/-! ### Dividing commas -/

/-- The number of places of a text where a comma stands and a scan is outside quotes and
brackets. -/
def dividingCommas (n : Nesting) (cs : List Char) : Nat :=
  (List.range cs.length).countP fun i ↦
    cs[i]? = some ',' ∧ (n.after .roundAndSquare (cs.take i)).outside = true

@[simp] theorem dividingCommas_nil : dividingCommas n [] = 0 := rfl

/-- The first character counts if it is a comma and the scan is outside; the rest is counted from
the state behind it. -/
theorem dividingCommas_cons (c : Char) :
    dividingCommas n (c :: p) =
      dividingCommas (n.step .roundAndSquare c) p +
        if c = ',' ∧ n.outside = true then 1 else 0 := by
  rw [dividingCommas, List.length_cons, List.range_succ_eq_map, List.countP_cons, List.countP_map]
  simp [dividingCommas, Function.comp_def]

/-- The dividing commas of two texts in a row are those of both, the second one from where the scan
of the first has got to. -/
theorem dividingCommas_append :
    dividingCommas n (p ++ q) =
      dividingCommas n p + dividingCommas (n.after .roundAndSquare p) q := by
  induction p generalizing n with
  | nil => simp
  | cons c p ih =>
    rw [List.cons_append, dividingCommas_cons, dividingCommas_cons, ih, after_cons]
    omega

/-- A text is not divided exactly if it has no dividing comma. -/
theorem uncut_iff : Uncut n p ↔ dividingCommas n p = 0 := by
  induction p generalizing n with
  | nil => simp
  | cons c p ih =>
    rw [Uncut, ih, dividingCommas_cons]
    by_cases hc : c = ',' ∧ n.outside = true
    · simp [hc]
    · simp [hc]

/-- A text has no dividing comma, or there is a first one. -/
theorem uncut_or_exists_comma (n : Nesting) (cs : List Char) :
    Uncut n cs ∨ ∃ p rest, cs = p ++ ',' :: rest ∧ Uncut n p ∧
      (n.after .roundAndSquare p).outside = true := by
  induction cs generalizing n with
  | nil => exact .inl trivial
  | cons c cs ih =>
    by_cases hc : c = ',' ∧ n.outside = true
    · exact .inr ⟨[], cs, by rw [hc.1, List.nil_append], trivial, hc.2⟩
    · rcases ih (n.step .roundAndSquare c) with h | ⟨p, rest, rfl, hp, ho⟩
      · exact .inl ⟨hc, h⟩
      · exact .inr ⟨c :: p, rest, rfl, ⟨hc, hp⟩, ho⟩

/-- Induction along the dividing commas of a text. -/
@[elab_as_elim]
theorem comma_induction {motive : List Char → Prop} (uncut : ∀ p, Uncut {} p → motive p)
    (comma : ∀ p rest, Piece p → motive rest → motive (p ++ ',' :: rest)) (cs : List Char) :
    motive cs := by
  rcases uncut_or_exists_comma {} cs with h | ⟨p, rest, hcs, hp, ho⟩
  · exact uncut cs h
  · rw [hcs]
    exact comma p rest ⟨hp, ho⟩ (comma_induction uncut comma rest)
termination_by cs.length
decreasing_by
  rw [hcs, List.length_append, List.length_cons]
  omega

/-! ### Parts -/

/-- The parts of a text between its dividing commas, in order. -/
def parts (cs : List Char) : List (List Char) := (pieces {} cs).1 :: (pieces {} cs).2

theorem parts_ne_nil (cs : List Char) : parts cs ≠ [] := List.cons_ne_nil _ _

/-- A text without dividing commas is its only part. -/
theorem parts_of_uncut (h : Uncut {} p) : parts p = [p] := by
  have hp : pieces {} (p ++ []) = _ := pieces_append h
  rw [parts, ← List.append_nil p, hp, pieces, List.append_nil]

/-- A piece in front of a comma is the first part. -/
theorem parts_append_comma (h : Piece p) : parts (p ++ ',' :: rest) = p :: parts rest := by
  rw [parts, pieces_append_comma h.uncut h.outside, h.after_eq, parts]

/-- Texts that commas divide when they stand between them: pieces, and a last text without dividing
commas. -/
inductive Parted : List (List Char) → Prop where
  /-- One text, open or not. -/
  | last {p : List Char} (h : Uncut {} p) : Parted [p]
  /-- A piece in front of others. -/
  | cons {p : List Char} {ps : List (List Char)} (hp : Piece p) (hps : Parted ps) : Parted (p :: ps)

theorem Parted.ne_nil (h : Parted ps) : ps ≠ [] := by
  cases h <;> exact List.cons_ne_nil _ _

/-- Pieces are parted, the last one like the others. -/
theorem Parted.of_pieces (hne : ps ≠ []) (h : ∀ p ∈ ps, Piece p) : Parted ps := by
  induction ps with
  | nil => exact absurd rfl hne
  | cons p ps ih =>
    have hp := h p List.mem_cons_self
    cases ps with
    | nil => exact .last hp.uncut
    | cons q ps =>
      exact .cons hp (ih (List.cons_ne_nil q ps) fun a ha ↦ h a (List.mem_cons_of_mem p ha))

/-- A comma stands between the first text and the others. -/
theorem intercalate_comma (hps : ps ≠ []) :
    [','].intercalate (p :: ps) = p ++ ',' :: [','].intercalate ps := by
  rw [List.intercalate_cons_of_ne_nil hps, List.append_assoc, List.singleton_append]

/-- A comma and a blank between texts is a comma between texts with a blank before them. -/
theorem intercalate_comma_blank (w : List Char) (ws : List (List Char)) :
    [',', ' '].intercalate (w :: ws) = [','].intercalate (w :: ws.map (' ' :: ·)) := by
  induction ws generalizing w with
  | nil => rfl
  | cons v ws ih =>
    rw [List.intercalate_cons_cons, ih, List.map_cons, List.intercalate_cons_cons]
    cases ws <;> simp [List.intercalate_cons_cons]

/-- Texts are cut apart at the commas that they are joined with. -/
theorem parts_intercalate (h : Parted ps) : parts ([','].intercalate ps) = ps := by
  induction h with
  | last h => rw [List.intercalate_singleton, parts_of_uncut h]
  | cons hp hps ih => rw [intercalate_comma hps.ne_nil, parts_append_comma hp, ih]

/-- Joined with commas, the parts are the text again. -/
theorem intercalate_parts (cs : List Char) : [','].intercalate (parts cs) = cs := by
  induction cs using comma_induction with
  | uncut p h => rw [parts_of_uncut h, List.intercalate_singleton]
  | comma p rest hp ih => rw [parts_append_comma hp, intercalate_comma (parts_ne_nil rest), ih]

/-- A text is cut at dividing commas only, and at all of them. -/
theorem parted_parts (cs : List Char) : Parted (parts cs) := by
  induction cs using comma_induction with
  | uncut p h =>
    rw [parts_of_uncut h]
    exact .last h
  | comma p rest hp ih =>
    rw [parts_append_comma hp]
    exact .cons hp ih

/-- There is one more part than there are dividing commas. -/
theorem length_parts (cs : List Char) : (parts cs).length = dividingCommas {} cs + 1 := by
  induction cs using comma_induction with
  | uncut p h => rw [parts_of_uncut h, uncut_iff.1 h, List.length_singleton]
  | comma p rest hp ih =>
    have hcomma : dividingCommas {} (',' :: rest) = dividingCommas {} rest + 1 :=
      dividingCommas_cons ','
    rw [parts_append_comma hp, List.length_cons, ih, dividingCommas_append, hp.after_eq, hcomma,
      uncut_iff.1 hp.uncut, Nat.zero_add]

/-! ### Arguments -/

/-- The arguments in a text that is not blank are its parts without the blanks around them. -/
theorem splitAtCommas_eq {cs : List Char} (h : trim cs ≠ []) :
    splitAtCommas cs = (parts cs).map trim := by
  rw [splitAtCommas, if_neg h]
  rfl

/-- Pieces that are joined with commas are told apart, unless all that there is is blank. -/
theorem splitAtCommas_intercalate (h : ∀ p ∈ ps, Piece p) (hne : ps.map trim ≠ [[]]) :
    splitAtCommas ([','].intercalate ps) = ps.map trim := by
  cases ps with
  | nil => rfl
  | cons p ps =>
    have htrim : trim ([','].intercalate (p :: ps)) ≠ [] := by
      cases ps with
      | nil =>
        rw [List.intercalate_singleton]
        exact fun hp ↦ hne (congrArg ([·]) hp)
      | cons q ps =>
        rw [intercalate_comma (List.cons_ne_nil q ps)]
        exact trim_ne_nil (List.mem_append_right p List.mem_cons_self) rfl
    rw [splitAtCommas_eq htrim, parts_intercalate (.of_pieces (List.cons_ne_nil p ps) h)]

/-- An argument with blanks around it. -/
structure Spaced where
  /-- The blanks in front. -/
  before : List Char
  /-- The argument. -/
  argument : List Char
  /-- The blanks behind. -/
  after : List Char
  /-- There is nothing but blanks in front. -/
  blank_before : ∀ c ∈ before, isBlank c = true
  /-- There is nothing but blanks behind. -/
  blank_after : ∀ c ∈ after, isBlank c = true

namespace Spaced

/-- The argument together with its blanks. -/
def text (a : Spaced) : List Char := a.before ++ (a.argument ++ a.after)

/-- An argument that is a piece is one with the blanks around it, too. -/
theorem piece_text {a : Spaced} (h : Piece a.argument) : Piece a.text :=
  (piece_of_isBlank a.blank_before).append (h.append (piece_of_isBlank a.blank_after))

/-- Trimming gives the argument back. -/
theorem trim_text {a : Spaced} (h : Tight a.argument) : trim a.text = a.argument := by
  by_cases hne : a.argument = []
  · rw [text, hne, List.nil_append]
    have hblank : ∀ c ∈ a.before ++ a.after, isBlank c = true :=
      List.forall_mem_append.2 ⟨a.blank_before, a.blank_after⟩
    exact trim_append_of_blank [] hblank
  · exact trim_append_append hne h a.blank_before a.blank_after

/-- Every text is what is left of it without its blanks, with blanks around that. -/
theorem exists_text_eq (p : List Char) : ∃ a : Spaced, a.text = p ∧ a.argument = trim p := by
  obtain ⟨l, r, hp, hl, hr⟩ := exists_eq_trim p
  exact ⟨⟨l, trim p, r, hl, hr⟩, hp.symm, rfl⟩

end Spaced

/-- Arguments joined with commas, each with its blanks around it. -/
def joined (args : List Spaced) : List Char := [','].intercalate (args.map Spaced.text)

/-- Cutting at commas undoes joining. Pieces without blanks at their ends that are joined with
commas, with any blanks next to these and at the ends, are the arguments in what they are joined to,
unless there is one piece only and it is empty. In a text that is not blank there is one argument
more than there are dividing commas, no argument has blanks at its ends, and with blanks around
them the arguments are joined to the text again, by the commas that divide it. -/
theorem splitAtCommas_joined :
    (∀ args : List Spaced, (∀ a ∈ args, Piece a.argument ∧ Tight a.argument) →
      args.map Spaced.argument ≠ [[]] →
      splitAtCommas (joined args) = args.map Spaced.argument) ∧
    ∀ cs : List Char, (∃ c ∈ cs, isBlank c = false) →
      (splitAtCommas cs).length = dividingCommas {} cs + 1 ∧
      (∀ a ∈ splitAtCommas cs, Tight a) ∧
      ∃ args : List Spaced, args.map Spaced.argument = splitAtCommas cs ∧ joined args = cs ∧
        Parted (args.map Spaced.text) := by
  constructor
  · intro args hargs hne
    have hpiece : ∀ p ∈ args.map Spaced.text, Piece p :=
      List.forall_mem_map.2 fun a ha ↦ Spaced.piece_text (hargs a ha).1
    have htrim : (args.map Spaced.text).map trim = args.map Spaced.argument := by
      rw [List.map_map]
      exact List.map_congr_left fun a ha ↦ Spaced.trim_text (hargs a ha).2
    rw [← htrim] at hne ⊢
    exact splitAtCommas_intercalate hpiece hne
  · rintro cs ⟨c, hc, hblank⟩
    rw [splitAtCommas_eq (trim_ne_nil hc hblank), List.length_map, length_parts]
    refine ⟨rfl, List.forall_mem_map.2 fun p _ ↦ tight_trim p, ?_⟩
    choose around htext hargument using Spaced.exists_text_eq
    have hparts : ((parts cs).map around).map Spaced.text = parts cs := by
      rw [List.map_map]
      exact List.map_id'' htext (parts cs)
    refine ⟨(parts cs).map around, ?_, ?_, ?_⟩
    · rw [List.map_map]
      exact List.map_congr_left fun p _ ↦ hargument p
    · rw [joined, hparts, intercalate_parts]
    · rw [hparts]
      exact parted_parts cs

/-- Commas in quotes and in brackets, a bracket in quotes, an empty argument and brackets that close
nothing. -/
def nestedArguments : List Spaced :=
  [⟨[], "\"a,b\"".toList, [' '], by decide, by decide⟩, ⟨[], [], [], by decide, by decide⟩,
    ⟨['\t'], "[g](2, ')')".toList, [], by decide, by decide⟩,
    ⟨[' '], "])".toList, ['\u3000'], by decide, by decide⟩]

/-- A text that ends in open quotes and brackets. -/
def openArguments : List Char := " a ,) , (b, \"c ".toList

/-- Arguments with quoted commas and brackets, with none and with brackets that are never opened;
and a text that leaves a quote or a bracket open. -/
theorem splitAtCommas_joined_nested :
    String.ofList (joined nestedArguments) = "\"a,b\" ,,\t[g](2, ')'), ])\u3000" ∧
    (∀ a ∈ nestedArguments, Piece a.argument ∧ Tight a.argument) ∧
    nestedArguments.map Spaced.argument ≠ [[]] ∧
    splitAtCommas (joined nestedArguments) = nestedArguments.map Spaced.argument ∧
    (∃ c ∈ openArguments, isBlank c = false) ∧ dividingCommas {} openArguments = 2 ∧
    (splitAtCommas openArguments).length = 2 + 1 ∧ (∀ a ∈ splitAtCommas openArguments, Tight a) ∧
    ∃ args : List Spaced, args.map Spaced.argument = splitAtCommas openArguments ∧
      joined args = openArguments ∧ Parted (args.map Spaced.text) := by
  have hpieces : ∀ a ∈ nestedArguments, Piece a.argument ∧ Tight a.argument := by decide
  have hblank : ∃ c ∈ openArguments, isBlank c = false := ⟨'a', by decide, rfl⟩
  obtain ⟨hjoin, hcut⟩ := splitAtCommas_joined
  obtain ⟨hlength, htight, hargs⟩ := hcut openArguments hblank
  exact ⟨rfl, hpieces, by decide, hjoin nestedArguments hpieces (by decide), hblank, by decide,
    hlength, htight, hargs⟩

end Text

end Haklang

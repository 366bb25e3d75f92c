import Mathlib.Data.List.Basic
import Haklang.Expr.Reader
import Haklang.Proofs.Number.Written
import Haklang.Proofs.Text.Scan

/-!
# Written expressions

An expression is written without any brackets of its own (`Expr.write`): operands around keywords,
and only the arguments of a call stand in parentheses. So the text says less than the tree, and only
`Canonical` trees can be meant by it: an operator binds looser than those on its left and not
tighter than those on its right, and what stands between quotes or in the name of a call does not
look like the end of it.

The module says what a scan sees of a written expression.

* The text is balanced, and no comma of it divides (`Canonical.balanced`, `Canonical.uncut`).
* Its first and last characters are marks, characters that no keyword has (`Canonical.marked`). So a
  keyword never reaches over the end of an operand, and the text has no blanks to trim
  (`Marked.tight`).
* A word without marks is absent from it exactly if it is part of no keyword and of no name of a
  call in it (`Canonical.absent_iff`). This is where keywords that are parts of one another have to
  be told apart.
-/

namespace Haklang

-- Statements on the members of a list are decided along the list, whatever other instances are in
-- sight.
attribute [local instance (high)] List.decidableBAll

/-- A keyword between blanks, as it stands between two operands. -/
def spaced (w : String) : List Char := ' ' :: (w.toList ++ [' '])

/-- The keyword of an operator between two operands. -/
def BinaryOperator.infixed (op : BinaryOperator) : List Char := spaced op.keyword

namespace Expr

mutual

/-- An expression as text. -/
def write : Expr → List Char
  | negate e => negateWord.toList ++ [' '] ++ e.write
  | binary op l r => l.write ++ (op.infixed ++ r.write)
  | var name => '\'' :: (name.toList ++ ['\''])
  | int n => n.render.toList
  | decimal d => d.write
  | text s => '"' :: (s.toList ++ ['"'])
  | bool b => if b then trueWord.toList else falseWord.toList
  | call name args => '[' :: (name.toList ++ [']']) ++ '(' :: (writeAll args ++ [')'])
  | unresolved s => s.toList

/-- The arguments of a call as text. -/
def writeAll : List Expr → List Char
  | [] => []
  | [e] => e.write
  | e :: e' :: rest => e.write ++ ',' :: ' ' :: writeAll (e' :: rest)

end

/-- An expression as a string. -/
def render (e : Expr) : String := String.ofList e.write

/-- The operators of an expression, without those in the arguments of calls. -/
def operators : Expr → List BinaryOperator
  | negate e => e.operators
  | binary op l r => l.operators ++ op :: r.operators
  | _ => []

/-- The functions that an expression calls, without those in the arguments of calls. -/
def callees : Expr → List String
  | negate e => e.callees
  | binary _ l r => l.callees ++ r.callees
  | call name _ => [name]
  | _ => []

/-- Whether the expression is the opposite of another. -/
def isNegate : Expr → Bool
  | negate _ => true
  | _ => false

/-- The characters that may not stand in the name of a call. -/
def nameBreakers : List Char := ['[', ']', '(', ')', '\'', '"', '\n']

/-- The expressions that can be told from their text. -/
inductive Canonical : Expr → Prop where
  /-- The opposite of an expression. -/
  | negate {e : Expr} (he : Canonical e) : Canonical (negate e)
  /-- Tighter operators on the left, and none that are looser on the right. A left operand that is
  an opposite would take the operator into it. -/
  | binary {op : BinaryOperator} {l r : Expr} (hl : Canonical l) (hr : Canonical r)
      (hleft : ∀ o ∈ l.operators, op.rank < o.rank) (hright : ∀ o ∈ r.operators, op.rank ≤ o.rank)
      (hneg : l.isNegate = false) : Canonical (binary op l r)
  /-- A variable without a single quote in its name. -/
  | var {name : String} (hname : '\'' ∉ name.toList) : Canonical (var name)
  /-- An integer. -/
  | int (n : Integer) : Canonical (int n)
  /-- A decimal, whose scale is held in 64 bits. -/
  | decimal {d : Decimal} (hd : d.scale ≤ 9223372036854775807) : Canonical (decimal d)
  /-- Text without a double quote. -/
  | text {s : String} (hs : '"' ∉ s.toList) : Canonical (text s)
  /-- A truth value. -/
  | bool (b : Bool) : Canonical (bool b)
  /-- A call of a function whose name holds no keyword and no character that could end it, with
  arguments on one line. -/
  | call {name : String} {args : List Expr} (hne : name.toList ≠ [])
      (hname : ∀ c ∈ name.toList, c ∉ nameBreakers)
      (hword : ∀ op : BinaryOperator, ¬ op.keyword.toList <:+: name.toList)
      (hargs : ∀ a ∈ args, Canonical a) (hline : ∀ a ∈ args, '\n' ∉ a.write) :
      Canonical (call name args)

/-! ### Marks -/

/-- The characters that a written operand begins or ends with, and those that stand between the
parts of a call. -/
def marks : List Char :=
  ['\'', '"', '-', '.', ',', '[', ']', '(', ')', '야', '반', '폐', '베']

/-- A character that no keyword has. -/
def IsMark (c : Char) : Prop := c.isDigit = true ∨ c ∈ marks

instance (c : Char) : Decidable (IsMark c) := inferInstanceAs (Decidable (_ ∨ _))

/-- A word that is made of other characters than the operands are. -/
structure IsWord (w : List Char) : Prop where
  /-- It is not empty. -/
  ne_nil : w ≠ []
  /-- It has no marks. -/
  unmarked : ∀ c ∈ w, ¬ IsMark c
  /-- It is no part of the words that an operand can hold. -/
  foreign : ∀ u ∈ [negateWord.toList ++ [' '], trueWord.toList, falseWord.toList], ¬ w <:+: u

/-- What makes a word, in a form that is decided by evaluation. -/
theorem isWord_iff {w : List Char} : IsWord w ↔ w ≠ [] ∧ (∀ c ∈ w, ¬ IsMark c) ∧
    ∀ u ∈ [negateWord.toList ++ [' '], trueWord.toList, falseWord.toList], ¬ w <:+: u :=
  ⟨fun h ↦ ⟨h.1, h.2, h.3⟩, fun h ↦ ⟨h.1, h.2.1, h.2.2⟩⟩

/-- All operators are spelled with words. -/
theorem isWord_keyword (op : BinaryOperator) : IsWord op.keyword.toList := by
  rw [isWord_iff]
  cases op <;> decide +kernel

/-- A mark is not blank. -/
theorem isBlank_of_isMark {c : Char} (h : IsMark c) : Text.isBlank c = false := by
  rcases h with h | h
  · have hn : 48 ≤ c.toNat ∧ c.toNat ≤ 57 := by
      simpa [Char.isDigit, UInt32.le_iff_toNat_le] using h
    simp only [Text.isBlank, Bool.or_eq_false_iff, Bool.and_eq_false_iff, decide_eq_false_iff_not,
      beq_eq_false_iff_ne]
    omega
  · have hall : marks.all (fun c ↦ !Text.isBlank c) = true := by rfl
    simpa using List.all_eq_true.1 hall c h

/-- A character of a number. -/
def IsNumeric (c : Char) : Prop := c = '-' ∨ c.isDigit = true ∨ c = '.'

instance (c : Char) : Decidable (IsNumeric c) := inferInstanceAs (Decidable (_ ∨ _))

/-- Numbers are written with marks. -/
theorem IsNumeric.isMark {c : Char} (h : IsNumeric c) : IsMark c := by
  rcases h with rfl | h | rfl
  · exact .inr (by decide)
  · exact .inl h
  · exact .inr (by decide)

theorem IsNumeric.not_mem {c : Char} (h : IsNumeric c) {cs : List Char}
    (hcs : ∀ d ∈ cs, ¬ IsNumeric d) : c ∉ cs :=
  fun hc ↦ hcs c hc h

/-- An integer is written with digits and a sign. -/
theorem eq_or_isDigit_of_mem_render {n : Integer} {c : Char} (h : c ∈ n.render.toList) :
    c = '-' ∨ c.isDigit = true := by
  rw [Integer.render, String.toList_ofList, Numeral.writeInt] at h
  split at h
  · rcases List.mem_cons.1 h with h | h
    · exact .inl h
    · exact .inr (Numeral.isDigit_of_mem_write h)
  · exact .inr (Numeral.isDigit_of_mem_write h)

/-- An integer is written as a number. -/
theorem isNumeric_of_mem_render {n : Integer} {c : Char} (h : c ∈ n.render.toList) :
    IsNumeric c :=
  (eq_or_isDigit_of_mem_render h).imp_right .inl

/-- A decimal with given places is written as a number. -/
theorem isNumeric_of_mem_fixed {d : Decimal} {k : Nat} {c : Char} (h : c ∈ (d.fixed k).toList) :
    IsNumeric c := by
  rw [Decimal.fixed, String.toList_ofList, Decimal.plain_eq] at h
  rcases List.mem_append.1 h with h | h
  · split at h
    · exact .inl (List.mem_singleton.1 h)
    · exact absurd h List.not_mem_nil
  · exact .inr (Decimal.isDigit_or_eq_of_mem_plainNat h)

/-- A decimal is written as a number. -/
theorem isNumeric_of_mem_write {d : Decimal} {c : Char} (h : c ∈ d.write) : IsNumeric c :=
  isNumeric_of_mem_fixed h

theorem render_ne_nil (n : Integer) : n.render.toList ≠ [] := by
  rw [Integer.render, String.toList_ofList, Numeral.writeInt]
  split
  · exact List.cons_ne_nil _ _
  · exact Numeral.write_ne_nil _

/-- A text whose first and last characters are marks. -/
structure Marked (p : List Char) : Prop where
  /-- There is text. -/
  ne_nil : p ≠ []
  /-- It begins with a mark. -/
  head : ∀ c ∈ p.head?, IsMark c
  /-- It ends with a mark. -/
  getLast : ∀ c ∈ p.getLast?, IsMark c

namespace Marked

variable {p q : List Char}

/-- What is made of marks begins and ends with them. -/
theorem of_forall (hne : p ≠ []) (h : ∀ c ∈ p, IsMark c) : Marked p where
  ne_nil := hne
  head c hc := h c (List.mem_of_head? hc)
  getLast c hc := h c (List.mem_of_getLast? hc)

/-- Only the ends count: anything may stand between two marked texts. -/
theorem append_append (hp : Marked p) (m : List Char) (hq : Marked q) :
    Marked (p ++ (m ++ q)) where
  ne_nil := List.append_ne_nil_of_left_ne_nil hp.ne_nil _
  head c hc := hp.head c (by rwa [List.head?_append_of_ne_nil p hp.ne_nil] at hc)
  getLast c hc := hq.getLast c (by
    rwa [← List.append_assoc, List.getLast?_append_of_ne_nil _ hq.ne_nil] at hc)

/-- A text between two marks is marked. -/
theorem cons_append_singleton {c d : Char} (hc : IsMark c) (m : List Char) (hd : IsMark d) :
    Marked (c :: (m ++ [d])) :=
  append_append (of_forall (p := [c]) (List.cons_ne_nil c []) (by simpa using hc)) m
    (of_forall (List.cons_ne_nil d []) (by simpa using hd))

/-- A marked text has no blanks at its ends. -/
theorem tight (hp : Marked p) : Text.Tight p :=
  ⟨fun c hc ↦ isBlank_of_isMark (hp.head c hc), fun c hc ↦ isBlank_of_isMark (hp.getLast c hc)⟩

end Marked

/-- A written expression begins and ends with marks. -/
theorem Canonical.marked {e : Expr} (h : Canonical e) : Marked e.write := by
  induction h with
  | negate _ ih =>
    exact .append_append (p := ['반']) (.of_forall (by decide) (by decide)) ['대', '로', ' '] ih
  | @binary op l r _ _ _ _ _ ihl ihr => exact ihl.append_append op.infixed ihr
  | @var name _ => exact .cons_append_singleton (by decide) name.toList (by decide)
  | int n => exact .of_forall (render_ne_nil n) fun c hc ↦ (isNumeric_of_mem_render hc).isMark
  | @decimal d _ =>
    exact .of_forall (List.ne_nil_of_mem d.point_mem_write) fun c hc ↦
      (isNumeric_of_mem_write hc).isMark
  | @text s _ => exact .cons_append_singleton (by decide) s.toList (by decide)
  | bool b =>
    cases b with
    | false =>
      exact .cons_append_singleton (c := '야') (d := '베') (by decide) ['조', '깜'] (by decide)
    | true =>
      exact .cons_append_singleton (c := '야') (d := '폐') (by decide) ['오', '루'] (by decide)
  | @call name args _ _ _ _ _ _ =>
    have hname : Marked ('[' :: (name.toList ++ [']'])) :=
      .cons_append_singleton (by decide) name.toList (by decide)
    have hargs : Marked ('(' :: (writeAll args ++ [')'])) :=
      .cons_append_singleton (by decide) (writeAll args) (by decide)
    exact hname.append_append [] hargs

/-- The negation keyword stands only at the beginning of an opposite. -/
theorem Canonical.head_ne {e : Expr} (h : Canonical e) (hneg : e.isNegate = false) :
    '반' ∉ e.write.head? := by
  induction h with
  | negate => cases hneg
  | @binary op l r hl _ _ _ hnegl ihl =>
    rw [write, List.head?_append_of_ne_nil _ hl.marked.ne_nil]
    exact ihl hnegl
  | var => simp [write]
  | int n =>
    intro hc
    exact absurd (isNumeric_of_mem_render (List.mem_of_head? hc)) (by decide)
  | decimal =>
    intro hc
    exact absurd (isNumeric_of_mem_write (List.mem_of_head? hc)) (by decide)
  | text => simp [write]
  | bool b => cases b <;> decide
  | call => simp [write]

/-! ### Quotes and brackets -/

section Balanced

open Text Nesting

variable {b : Brackets}

/-- The characters that no name may have are all that quotes and brackets are made of. -/
theorem isPlain_of_not_mem (hb : b = .round ∨ b = .roundAndSquare) {c : Char}
    (hc : c ∉ nameBreakers) : IsPlain b c := by
  have hsub {d : Char} {cs : List Char} (h : cs ⊆ nameBreakers) (hd : d ∉ nameBreakers) : d ∉ cs :=
    fun hm ↦ hd (h hm)
  have hquote : ¬ IsQuote c := by
    rintro (rfl | rfl)
    · exact hc (by decide)
    · exact hc (by decide)
  rcases hb with rfl | rfl
  · exact ⟨hquote, hsub (by decide) hc, hsub (by decide) hc⟩
  · exact ⟨hquote, hsub (by decide) hc, hsub (by decide) hc⟩

/-- A text without them is balanced, whichever brackets are looked at. -/
theorem balanced_of_not_mem (hb : b = .round ∨ b = .roundAndSquare) {p : List Char}
    (hp : ∀ c ∈ p, c ∉ nameBreakers) : Balanced b p :=
  .of_isPlain fun c hc ↦ isPlain_of_not_mem hb (hp c hc)

/-- A quoted text is balanced if its quote does not occur in it. -/
theorem balanced_quoted {q : Char} (hq : IsQuote q) {s : List Char} (hs : q ∉ s) :
    Balanced b (q :: (s ++ [q])) :=
  .quoted hq hs .nil

/-- The name of a call stands between square brackets, which a scan may or may not count. -/
theorem balanced_name (hb : b = .round ∨ b = .roundAndSquare) {name : List Char}
    (hname : ∀ c ∈ name, c ∉ nameBreakers) : Balanced b ('[' :: (name ++ [']'])) := by
  have hin : Balanced b name := balanced_of_not_mem hb hname
  rcases hb with rfl | rfl
  · exact .plain (by decide) (hin.append (.plain (by decide) .nil))
  · exact .bracketed (by decide) (by decide) hin .nil

/-- Between parentheses a balanced text is balanced again. -/
theorem balanced_parentheses (hb : b = .round ∨ b = .roundAndSquare) {s : List Char}
    (hs : Balanced b s) : Balanced b ('(' :: (s ++ [')'])) := by
  rcases hb with rfl | rfl
  · exact .bracketed (by decide) (by decide) hs .nil
  · exact .bracketed (by decide) (by decide) hs .nil

/-- Written arguments are balanced if each of them is. -/
theorem balanced_writeAll (hb : b = .round ∨ b = .roundAndSquare) :
    ∀ {args : List Expr}, (∀ a ∈ args, Balanced b a.write) → Balanced b (writeAll args)
  | [], _ => .nil
  | [_], h => h _ List.mem_cons_self
  | e :: e' :: rest, h => by
    have hcomma : Balanced b (writeAll (e' :: rest)) :=
      balanced_writeAll hb fun a ha ↦ h a (List.mem_cons_of_mem e ha)
    exact (h e List.mem_cons_self).append (.plain (isPlain_of_not_mem hb (by decide))
      (.plain (isPlain_of_not_mem hb (by decide)) hcomma))

/-- A written expression closes its quotes and its brackets, whether or not square brackets
count. -/
theorem Canonical.balanced (hb : b = .round ∨ b = .roundAndSquare) {e : Expr} (h : Canonical e) :
    Balanced b e.write := by
  induction h with
  | negate _ ih =>
    exact (balanced_of_not_mem hb (p := negateWord.toList ++ [' ']) (by decide)).append ih
  | @binary op l r _ _ _ _ _ ihl ihr =>
    have hop : Balanced b op.infixed :=
      balanced_of_not_mem hb (by cases op <;> decide)
    exact ihl.append (hop.append ihr)
  | var hname => exact balanced_quoted (.inl rfl) hname
  | int n =>
    exact balanced_of_not_mem hb fun c hc ↦ (isNumeric_of_mem_render hc).not_mem (by decide)
  | decimal =>
    exact balanced_of_not_mem hb fun c hc ↦ (isNumeric_of_mem_write hc).not_mem (by decide)
  | text hs => exact balanced_quoted (.inr rfl) hs
  | bool v => cases v <;> exact balanced_of_not_mem hb (by decide)
  | call _ hname _ _ _ ih =>
    exact (balanced_name hb hname).append (balanced_parentheses hb (balanced_writeAll hb ih))

/-- A scan that has passed a written expression stands outside of quotes and brackets again. -/
theorem Canonical.after_write (hb : b = .round ∨ b = .roundAndSquare) {e : Expr}
    (h : Canonical e) : ({} : Nesting).after b e.write = {} :=
  (h.balanced hb).after_eq 0

/-- No comma of a written expression divides it. -/
theorem Canonical.uncut {e : Expr} (h : Canonical e) : Uncut {} e.write := by
  induction h with
  | negate _ ih =>
    exact uncut_append.2 ⟨.of_not_mem (by decide), ih⟩
  | @binary op l r hl _ _ _ _ ihl ihr =>
    have hop : Uncut {} op.infixed ∧ ({} : Nesting).after .roundAndSquare op.infixed = {} := by
      cases op <;> exact ⟨.of_not_mem (by decide), rfl⟩
    rw [write, uncut_append, hl.after_write (.inr rfl), uncut_append, hop.2]
    exact ⟨ihl, hop.1, ihr⟩
  | var hname => exact uncut_quoted (.inl rfl) hname
  | int n => exact .of_not_mem fun hc ↦ absurd (isNumeric_of_mem_render hc) (by decide)
  | decimal => exact .of_not_mem fun hc ↦ absurd (isNumeric_of_mem_write hc) (by decide)
  | text hs => exact uncut_quoted (.inr rfl) hs
  | bool v => cases v <;> exact .of_not_mem (by decide)
  | @call name args _ hname _ hargs _ _ =>
    have hin : Balanced .roundAndSquare (writeAll args) :=
      balanced_writeAll (.inr rfl) fun a ha ↦ (hargs a ha).balanced (.inr rfl)
    have hbrackets : Balanced .roundAndSquare ('[' :: (name.toList ++ [']'])) :=
      balanced_name (.inr rfl) hname
    rw [write, uncut_append, hbrackets.after_eq]
    exact ⟨uncut_bracketed (by decide) (by decide)
        (balanced_of_not_mem (.inr rfl) hname), uncut_bracketed (by decide) (by decide) hin⟩

end Balanced

/-! ### Words -/

section Words

open Text Nesting

variable {w : List Char}

/-- No mark occurs in a word. -/
theorem IsWord.not_mem (hw : IsWord w) {c : Char} (hc : IsMark c) : c ∉ w :=
  fun h ↦ hw.unmarked c h hc

/-- A word that is no part of a text is absent from it before an operand. -/
theorem IsWord.absent_of_not_isInfix (hw : IsWord w) {p q rest : List Char} (h : ¬ w <:+: p)
    (hq : Marked q) : Absent w {} p (q ++ rest) := by
  refine (Absent.of_not_isInfix h).of_bounded (.inr fun c hc ↦ hw.not_mem ?_)
  rw [List.head?_append_of_ne_nil q hq.ne_nil] at hc
  exact hq.head c hc

/-- The word is no part of the keywords of an expression and of the names of the functions that it
calls. -/
def Foreign (w : List Char) (e : Expr) : Prop :=
  (∀ op ∈ e.operators, ¬ w <:+: op.infixed) ∧ ∀ name ∈ e.callees, ¬ w <:+: name.toList

/-- A word is foreign to an expression if it is foreign to its operands and no part of its operator.
-/
theorem foreign_binary {op : BinaryOperator} {l r : Expr} :
    Foreign w (binary op l r) ↔ Foreign w l ∧ ¬ w <:+: op.infixed ∧ Foreign w r := by
  simp only [Foreign, operators, callees, List.mem_append, List.mem_cons]
  constructor
  · rintro ⟨hop, hcall⟩
    exact ⟨⟨fun o ho ↦ hop o (.inl ho), fun n hn ↦ hcall n (.inl hn)⟩, hop op (.inr (.inl rfl)),
      fun o ho ↦ hop o (.inr (.inr ho)), fun n hn ↦ hcall n (.inr hn)⟩
  · rintro ⟨hl, hop, hr⟩
    constructor
    · rintro o (ho | rfl | ho)
      · exact hl.1 o ho
      · exact hop
      · exact hr.1 o ho
    · rintro n (hn | hn)
      · exact hl.2 n hn
      · exact hr.2 n hn

/-- A word between blanks has neither quotes nor brackets. -/
theorem IsWord.isPlain_of_mem_spaced {v : String} (hv : IsWord v.toList) :
    ∀ c ∈ spaced v, IsPlain .round c := by
  have hmark : ∀ c ∈ ['\'', '"', '(', ')'], IsMark c := by decide
  intro c hc
  have hno : c ∉ ['\'', '"', '(', ')'] := by
    intro hbad
    have hblank : c ≠ ' ' := by
      rintro rfl
      exact absurd hbad (by decide)
    have hmem : c ∈ v.toList := by simpa [spaced, hblank] using hc
    exact hv.not_mem (hmark c hbad) hmem
  simp only [List.mem_cons, List.not_mem_nil, or_false, not_or] at hno
  exact ⟨fun hq ↦ hq.elim hno.1 hno.2.1, by simpa [Brackets.round] using hno.2.2.1,
    by simpa [Brackets.round] using hno.2.2.2⟩

/-- A word is absent from a keyword between operands exactly if it is no part of that keyword. -/
theorem IsWord.absent_spaced_iff (hw : IsWord w) {v : String} (hv : IsWord v.toList)
    {q rest : List Char} (hq : Marked q) :
    Absent w {} (spaced v) (q ++ rest) ↔ ¬ w <:+: spaced v :=
  ⟨fun ha ↦ not_isInfix_of_absent ha hw.ne_nil hv.isPlain_of_mem_spaced,
    fun hn ↦ hw.absent_of_not_isInfix hn hq⟩

/-- A scan passes over a word between blanks. -/
theorem IsWord.after_spaced {v : String} (hv : IsWord v.toList) :
    ({} : Nesting).after .round (spaced v) = {} :=
  (Balanced.of_isPlain hv.isPlain_of_mem_spaced).after_eq 0

/-- A word is absent from a written expression exactly if it is no part of the keywords and of the
names of functions that stand in it. -/
theorem Canonical.absent_iff (hw : IsWord w) {e : Expr} (h : Canonical e) {rest : List Char} :
    Absent w {} e.write rest ↔ Foreign w e := by
  have hleaf {e : Expr} (hop : e.operators = []) (hcall : e.callees = []) : Foreign w e := by
    simp [Foreign, hop, hcall]
  induction h generalizing rest with
  | @negate e he ih =>
    have hword : Absent w {} (negateWord.toList ++ [' ']) (e.write ++ rest) :=
      hw.absent_of_not_isInfix (hw.foreign _ (by simp)) he.marked
    exact absent_append.trans ((and_iff_right hword).trans ih)
  | @binary op l r hl hr _ _ _ ihl ihr =>
    have hop := isWord_keyword op
    rw [write, absent_append, hl.after_write (.inl rfl), absent_append, BinaryOperator.infixed,
      hop.after_spaced, foreign_binary]
    exact and_congr ihl (and_congr (hw.absent_spaced_iff hop hr.marked) ihr)
  | var hname =>
    exact iff_of_true (absent_quoted hw.ne_nil (.inl rfl) (hw.not_mem (by decide)) hname)
      (hleaf rfl rfl)
  | int n =>
    refine iff_of_true ?_ (hleaf rfl rfl)
    exact .of_forall_not_mem hw.ne_nil fun c hc ↦ hw.not_mem (isNumeric_of_mem_render hc).isMark
  | decimal =>
    refine iff_of_true ?_ (hleaf rfl rfl)
    exact .of_forall_not_mem hw.ne_nil fun c hc ↦ hw.not_mem (isNumeric_of_mem_write hc).isMark
  | text hs =>
    exact iff_of_true (absent_quoted hw.ne_nil (.inr rfl) (hw.not_mem (by decide)) hs)
      (hleaf rfl rfl)
  | bool b =>
    -- The text ends with a mark, so a word does not begin in it and end behind it.
    have hlast : ∀ c ∈ (Expr.bool b).write.getLast?, c ∉ w := fun c hc ↦
      hw.not_mem ((Canonical.bool b).marked.getLast c hc)
    refine iff_of_true (Absent.of_bounded (.of_not_isInfix (hw.foreign _ ?_)) (.inl hlast))
      (hleaf rfl rfl)
    cases b <;> simp [write]
  | @call name args _ hname _ hargs _ _ =>
    have hin : Balanced .round (writeAll args) :=
      balanced_writeAll (.inl rfl) fun a ha ↦ (hargs a ha).balanced (.inl rfl)
    have hbrackets : Balanced .round ('[' :: (name.toList ++ [']'])) :=
      balanced_name (.inl rfl) hname
    -- The arguments are hidden by their parentheses; only the name is open to the scan.
    have harguments : Absent w {} ('(' :: (writeAll args ++ [')'])) rest :=
      absent_bracketed hw.ne_nil (hw.not_mem (by decide)) (by decide) hin
    have hclose : Marked [']'] := .of_forall (by decide) (by decide)
    have hcall : Foreign w (Expr.call name args) ↔ ¬ w <:+: name.toList := by
      simp [Foreign, operators, callees]
    rw [write, absent_append, hbrackets.after_eq, and_iff_left harguments, hcall]
    constructor
    · rintro ⟨_, ha⟩
      exact not_isInfix_of_absent (absent_append.1 ha).1 hw.ne_nil fun c hc ↦
        isPlain_of_not_mem (.inl rfl) (hname c hc)
    · intro hn
      refine ⟨fun _ ↦ not_prefix_cons hw.ne_nil (hw.not_mem (by decide)), absent_append.2 ⟨?_, ?_⟩⟩
      · exact hw.absent_of_not_isInfix hn hclose
      · refine .of_forall_not_mem hw.ne_nil fun c hc ↦ hw.not_mem ?_
        rw [List.mem_singleton.1 hc]
        decide

/-- A text is divided around a keyword behind an operand from which the keyword is absent. -/
theorem Canonical.splitAtWord?_spaced {v : String} (hv : IsWord v.toList) (hblank : ' ' ∉ v.toList)
    {e : Expr} (h : Canonical e) (hforeign : Foreign v.toList e) (rest : List Char) :
    splitAtWord? v.toList (e.write ++ (spaced v ++ rest)) =
      some (e.write ++ [' '], ' ' :: rest) := by
  have heq : e.write ++ (spaced v ++ rest) = e.write ++ [' '] ++ (v.toList ++ ' ' :: rest) := by
    simp [spaced]
  have hafter : ({} : Nesting).after .round (e.write ++ [' ']) = {} := by
    rw [after_append, h.after_write (.inl rfl)]
    rfl
  rw [heq]
  refine splitAtWord?_of_absent hv.ne_nil (absent_append.2 ⟨?_, ?_⟩) hafter
  · exact (h.absent_iff hv).2 hforeign
  · refine .of_forall_not_mem hv.ne_nil fun c hc ↦ ?_
    rwa [List.mem_singleton.1 hc]

end Words

end Expr

end Haklang

import Haklang.Execution
import Haklang.Proofs.Expr.RoundTrip

/-!
# What an operand is read as

The scan for keywords and the reading of an operand disagree on what one token is. The scan closes a
quote at the next quote of its kind; the reading of an operand looks at its first and its last
character only. So two tokens of one kind without a keyword between them are read as one, with
quotes inside, and no error comes of it (`ofChars_tokens`).

`Operand` are the parts of a text that are read as operands, after any number of divisions and also
in the arguments of calls. The variables and texts of the tree are exactly what its operands are
read as (`within_ofChars_iff`), so their names and contents are free of quotes exactly if no operand
is run together from several tokens (`quoteFree_iff`).
-/

namespace Haklang

-- Statements on the members of a list are decided along the list, whatever other instances are in
-- sight.
attribute [local instance (high)] List.decidableBAll

namespace Expr

open Text Nesting

/-! ### Leaves -/

/-- What a leaf can be, and from what text. -/
theorem leaf?_cases {cs : List Char} {e : Expr} (h : leaf? cs = some e) :
    (∃ name, cs = '\'' :: (name ++ ['\'']) ∧ e = var (String.ofList name)) ∨
      (∃ b, cs = write (bool b) ∧ e = bool b) ∨
      (∃ n, number? cs = some (int n) ∧ e = int n) ∨
      (∃ d, number? cs = some (decimal d) ∧ e = decimal d) ∨
      ∃ s, cs = '"' :: (s ++ ['"']) ∧ e = text (String.ofList s) := by
  rw [leaf?] at h
  split at h
  case h_1 name hname =>
    exact .inl ⟨name, between?_eq_some_iff.1 hname, (Option.some.inj h).symm⟩
  case h_2 =>
    split at h
    case isTrue htrue => exact .inr (.inl ⟨true, htrue, (Option.some.inj h).symm⟩)
    split at h
    case isTrue hfalse => exact .inr (.inl ⟨false, hfalse, (Option.some.inj h).symm⟩)
    split at h
    case h_1 e' hnumber =>
      obtain rfl := Option.some.inj h
      have hread := hnumber
      rw [number?] at hread
      split at hread
      · obtain ⟨d, _, rfl⟩ := Option.map_eq_some_iff.1 hread
        exact .inr (.inr (.inr (.inl ⟨d, hnumber, rfl⟩)))
      · obtain ⟨n, _, rfl⟩ := Option.map_eq_some_iff.1 hread
        exact .inr (.inr (.inl ⟨n, hnumber, rfl⟩))
    case h_2 =>
      obtain ⟨s, hs, rfl⟩ := Option.map_eq_some_iff.1 h
      exact .inr (.inr (.inr (.inr ⟨s, between?_eq_some_iff.1 hs, rfl⟩)))

/-- A leaf has no operators. -/
theorem operators_of_leaf? {cs : List Char} {e : Expr} (h : leaf? cs = some e) :
    e.operators = [] := by
  obtain ⟨_, _, rfl⟩ | ⟨_, _, rfl⟩ | ⟨_, _, rfl⟩ | ⟨_, _, rfl⟩ | ⟨_, _, rfl⟩ := leaf?_cases h <;>
    rfl

/-- A variable is read from its name between single quotes, and from nothing else. -/
theorem leaf?_eq_var_iff {cs : List Char} {name : String} :
    leaf? cs = some (var name) ↔ cs = '\'' :: (name.toList ++ ['\'']) := by
  constructor
  · intro h
    obtain ⟨s, rfl, heq⟩ | ⟨_, _, heq⟩ | ⟨_, _, heq⟩ | ⟨_, _, heq⟩ | ⟨_, _, heq⟩ := leaf?_cases h
    · rw [Expr.var.inj heq, String.toList_ofList]
    all_goals cases heq
  · rintro rfl
    rw [leaf?_var, String.ofList_toList]

/-- A text is read from itself between double quotes, and from nothing else. -/
theorem leaf?_eq_text_iff {cs : List Char} {s : String} :
    leaf? cs = some (text s) ↔ cs = '"' :: (s.toList ++ ['"']) := by
  constructor
  · intro h
    obtain ⟨_, _, heq⟩ | ⟨_, _, heq⟩ | ⟨_, _, heq⟩ | ⟨_, _, heq⟩ | ⟨s', rfl, heq⟩ := leaf?_cases h
    rotate_right
    · rw [Expr.text.inj heq, String.toList_ofList]
    all_goals cases heq
  · rintro rfl
    rw [leaf?_text, String.ofList_toList]

/-! ### Operands -/

/-- The parts of a text that are read as operands. -/
inductive Operand : List Char → List Char → Prop where
  /-- A text that is not divided, without the blanks around it. -/
  | whole {cs : List Char} (hneg : after? negateWord.toList (trim cs) = none)
      (hdiv : divide? (trim cs) = none) : Operand cs (trim cs)
  /-- An operand behind the negation keyword. -/
  | negated {cs rest a : List Char} (hneg : after? negateWord.toList (trim cs) = some rest)
      (h : Operand rest a) : Operand cs a
  /-- An operand on the left of an operator. -/
  | left {cs l r a : List Char} {op : BinaryOperator}
      (hneg : after? negateWord.toList (trim cs) = none)
      (hdiv : divide? (trim cs) = some (op, l, r))
      (h : Operand l a) : Operand cs a
  /-- An operand on the right of an operator. -/
  | right {cs l r a : List Char} {op : BinaryOperator}
      (hneg : after? negateWord.toList (trim cs) = none)
      (hdiv : divide? (trim cs) = some (op, l, r))
      (h : Operand r a) : Operand cs a
  /-- An operand in an argument of a call. -/
  | argument {cs name args arg a : List Char} (hneg : after? negateWord.toList (trim cs) = none)
      (hdiv : divide? (trim cs) = none) (hleaf : leaf? (trim cs) = none)
      (hcall : callParts? (trim cs) = some (name, args)) (harg : arg ∈ splitAtCommas args)
      (h : Operand arg a) : Operand cs a

/-- The expressions that an expression is made of, itself included. -/
inductive Within (a : Expr) : Expr → Prop where
  /-- The expression itself. -/
  | self : Within a a
  /-- In the expression that an opposite is of. -/
  | negate {e : Expr} (h : Within a e) : Within a (negate e)
  /-- On the left of an operator. -/
  | left {op : BinaryOperator} {l r : Expr} (h : Within a l) : Within a (binary op l r)
  /-- On the right of an operator. -/
  | right {op : BinaryOperator} {l r : Expr} (h : Within a r) : Within a (binary op l r)
  /-- In an argument of a call. -/
  | argument {name : String} {args : List Expr} {e : Expr} (he : e ∈ args) (h : Within a e) :
      Within a (call name args)

/-- A variable or a text. -/
def IsQuoted : Expr → Prop
  | var _ | text _ => True
  | _ => False

/-- Every operand that is read as a leaf is in the tree. -/
theorem Operand.within {cs a : List Char} (h : Operand cs a) {e : Expr}
    (hleaf : leaf? a = some e) : Within e (ofChars cs) := by
  induction h with
  | whole hneg hdiv =>
    rw [ofChars_eq, hneg, hdiv, hleaf]
    exact .self
  | negated hneg _ ih =>
    rw [ofChars_eq, hneg]
    exact .negate (ih hleaf)
  | left hneg hdiv _ ih =>
    rw [ofChars_eq, hneg, hdiv]
    exact .left (ih hleaf)
  | right hneg hdiv _ ih =>
    rw [ofChars_eq, hneg, hdiv]
    exact .right (ih hleaf)
  | argument hneg hdiv hnone hcall harg _ ih =>
    rw [ofChars_eq, hneg, hdiv, hnone, hcall]
    exact .argument (List.mem_map_of_mem harg) (ih hleaf)

/-- Every variable and every text of the tree is what an operand is read as. -/
theorem exists_operand_of_within {cs : List Char} {e : Expr} (he : IsQuoted e)
    (h : Within e (ofChars cs)) : ∃ a, Operand cs a ∧ leaf? a = some e := by
  induction cs using ofChars.induct with
  | case1 cs rest hneg ih =>
    rw [ofChars_eq, hneg] at h
    cases h with
    | self => cases he
    | negate h =>
      obtain ⟨a, ha, hleaf⟩ := ih h
      exact ⟨a, .negated hneg ha, hleaf⟩
  | case2 cs hneg op l r hdiv ihl ihr =>
    rw [ofChars_eq, hneg, hdiv] at h
    cases h with
    | self => cases he
    | left h =>
      obtain ⟨a, ha, hleaf⟩ := ihl h
      exact ⟨a, .left hneg hdiv ha, hleaf⟩
    | right h =>
      obtain ⟨a, ha, hleaf⟩ := ihr h
      exact ⟨a, .right hneg hdiv ha, hleaf⟩
  | case3 cs hneg hdiv e' hleaf =>
    rw [ofChars_eq, hneg, hdiv, hleaf] at h
    -- nothing is within a leaf but the leaf
    obtain rfl : e = e' := by
      obtain ⟨_, _, rfl⟩ | ⟨_, _, rfl⟩ | ⟨_, _, rfl⟩ | ⟨_, _, rfl⟩ | ⟨_, _, rfl⟩ :=
        leaf?_cases hleaf <;> cases h <;> rfl
    exact ⟨trim cs, .whole hneg hdiv, hleaf⟩
  | case4 cs hneg hdiv hleaf name args hcall ih =>
    rw [ofChars_eq, hneg, hdiv, hleaf, hcall] at h
    cases h with
    | self => cases he
    | argument hmem h =>
      obtain ⟨arg, harg, rfl⟩ := List.mem_map.1 hmem
      obtain ⟨a, ha, hleaf'⟩ := ih arg harg h
      exact ⟨a, .argument hneg hdiv hleaf hcall harg ha, hleaf'⟩
  | case5 cs hneg hdiv hleaf hcall =>
    rw [ofChars_eq, hneg, hdiv, hleaf, hcall] at h
    cases h
    cases he

/-- A quoted operand occurs in an expression exactly if it is one of its operands. -/
theorem within_ofChars_iff {cs : List Char} {e : Expr} (he : IsQuoted e) :
    Within e (ofChars cs) ↔ ∃ a, Operand cs a ∧ leaf? a = some e :=
  ⟨exists_operand_of_within he, fun ⟨_, ha, hleaf⟩ ↦ ha.within hleaf⟩

/-- Every variable and every text in the expression comes from one token: no name has a single quote
and no text a double one. -/
def QuoteFree (e : Expr) : Prop :=
  (∀ name, Within (var name) e → '\'' ∉ name.toList) ∧ ∀ s, Within (text s) e → '"' ∉ s.toList

/-- Text between quotes that holds the same quote again. -/
def RunTogether (a : List Char) : Prop := ∃ q s, IsQuote q ∧ a = q :: (s ++ [q]) ∧ q ∈ s

/-- What is read comes from single tokens exactly if no operand is run together. -/
theorem quoteFree_iff {cs : List Char} :
    QuoteFree (ofChars cs) ↔ ∀ a, Operand cs a → ¬ RunTogether a := by
  constructor
  · rintro ⟨hvar, htext⟩ a ha ⟨q, s, rfl | rfl, rfl, hs⟩
    · have hwithin := (within_ofChars_iff (e := var (.ofList s)) trivial).2 ⟨_, ha, leaf?_var s⟩
      refine hvar _ hwithin ?_
      rwa [String.toList_ofList]
    · have hwithin := (within_ofChars_iff (e := text (.ofList s)) trivial).2 ⟨_, ha, leaf?_text s⟩
      refine htext _ hwithin ?_
      rwa [String.toList_ofList]
  · intro h
    constructor
    · intro name hname hq
      obtain ⟨a, ha, hleaf⟩ := (within_ofChars_iff (e := var name) trivial).1 hname
      exact h a ha ⟨'\'', name.toList, .inl rfl, leaf?_eq_var_iff.1 hleaf, hq⟩
    · intro s hs hq
      obtain ⟨a, ha, hleaf⟩ := (within_ofChars_iff (e := text s) trivial).1 hs
      exact h a ha ⟨'"', s.toList, .inr rfl, leaf?_eq_text_iff.1 hleaf, hq⟩

/-! ### Two tokens -/

section TwoTokens

variable {q q' : Char} {a m b : List Char}

/-- Two quoted tokens with something between them. -/
def tokens (q : Char) (a m : List Char) (q' : Char) (b : List Char) : List Char :=
  q :: (a ++ [q]) ++ (m ++ q' :: (b ++ [q']))

/-- Without quotes a scan stays outside of them, at some depth. -/
theorem exists_after_eq {c : Brackets} (hm : ∀ x ∈ m, ¬ IsQuote x) (d : Nat) :
    ∃ d', after c ⟨none, d⟩ m = ⟨none, d'⟩ := by
  induction m generalizing d with
  | nil => exact ⟨d, rfl⟩
  | cons x m ih =>
    have htail (d : Nat) := ih (fun y hy ↦ hm y (List.mem_cons_of_mem x hy)) d
    rw [after_cons, step_none, if_neg (hm x List.mem_cons_self)]
    split
    · exact htail (d + 1)
    split
    · exact htail (d - 1)
    · exact htail d

/-- No keyword has a quote in it. -/
theorem not_mem_keyword (hq : IsQuote q) (op : BinaryOperator) : q ∉ op.keyword.toList := by
  refine (isWord_keyword op).not_mem (.inr ?_)
  rcases hq with rfl | rfl <;> decide

/-- Nothing but a keyword between them divides two tokens. -/
theorem divide?_tokens (hq : IsQuote q) (hq' : IsQuote q') (ha : q ∉ a) (hb : q' ∉ b)
    (hm : ∀ c ∈ m, ¬ IsQuote c) (hword : ∀ op : BinaryOperator, ¬ op.keyword.toList <:+: m) :
    divide? (tokens q a m q' b) = none := by
  refine divide?_eq_none_iff.2 fun op ↦ ?_
  have htoken : ({} : Nesting).after .round (q :: (a ++ [q])) = {} :=
    (balanced_quoted (b := .round) hq ha).after_eq 0
  obtain ⟨d, hd⟩ := exists_after_eq (c := .round) hm 0
  rw [tokens, absent_append, htoken, absent_append, hd]
  refine ⟨absent_quoted op.keyword_ne_nil hq (not_mem_keyword hq op) ha, ?_,
    absent_quoted op.keyword_ne_nil hq' (not_mem_keyword hq' op) hb⟩
  refine (Absent.of_not_isInfix (hword op)).of_bounded (.inr fun c hc ↦ ?_)
  obtain rfl : q' = c := by simpa using hc
  exact not_mem_keyword hq' op

/-- Two quoted tokens with a text between them, put together otherwise. -/
theorem tokens_eq :
    tokens q a m q' b = q :: (a ++ q :: (m ++ q' :: b) ++ [q']) := by
  simp [tokens]

/-- Two tokens in different quotes are no leaf. -/
theorem leaf?_tokens (hq : IsQuote q) (hne : q ≠ q') : leaf? (tokens q a m q' b) = none := by
  have hmem : q ∈ ['\'', '"', '['] := by rcases hq with rfl | rfl <;> decide
  have hends {c : Char} {s : List Char} (h : tokens q a m q' b = c :: (s ++ [c])) : q = q' := by
    rw [tokens_eq] at h
    obtain ⟨rfl, htail⟩ := List.cons.inj h
    exact (List.cons.inj (List.append_inj_right' htail rfl)).1.symm
  have hnumber : number? (tokens q a m q' b) = none := number?_eq_none hmem _
  cases hleaf : leaf? (tokens q a m q' b) with
  | none => rfl
  | some e =>
    obtain ⟨_, h, _⟩ | ⟨v, h, _⟩ | ⟨_, h, _⟩ | ⟨_, h, _⟩ | ⟨_, h, _⟩ := leaf?_cases hleaf
    · exact absurd (hends h) hne
    · rw [tokens_eq] at h
      cases v <;> exact absurd (List.cons.inj h).1 (by rintro rfl; exact absurd hq (by decide))
    · rw [hnumber] at h
      cases h
    · rw [hnumber] at h
      cases h
    · exact absurd (hends h) hne

/-- Two tokens with no keyword between them are read as one if their quotes are alike, and as no
expression otherwise. -/
theorem ofChars_tokens (hq : IsQuote q) (hq' : IsQuote q') (ha : q ∉ a) (hb : q' ∉ b)
    (hm : ∀ c ∈ m, ¬ IsQuote c) (hword : ∀ op : BinaryOperator, ¬ op.keyword.toList <:+: m) :
    ofChars (tokens q a m q' b) =
      if q ≠ q' then unresolved (String.ofList (tokens q a m q' b))
      else if q = '\'' then var (String.ofList (a ++ q :: (m ++ q' :: b)))
      else text (String.ofList (a ++ q :: (m ++ q' :: b))) := by
  have hmark {c : Char} (hc : IsQuote c) : IsMark c := by
    rcases hc with rfl | rfl <;> exact .inr (by decide)
  have hmarked : Marked (tokens q a m q' b) :=
    Marked.append_append (.cons_append_singleton (hmark hq) a (hmark hq)) m
      (.cons_append_singleton (hmark hq') b (hmark hq'))
  have hneg : after? negateWord.toList (tokens q a m q' b) = none := by
    rcases hq with rfl | rfl <;> rfl
  have hcall : callParts? (tokens q a m q' b) = none := by
    rcases hq with rfl | rfl <;> rfl
  rw [ofChars_eq, trim_of_tight hmarked.ne_nil hmarked.tight, hneg,
    divide?_tokens hq hq' ha hb hm hword, hcall]
  by_cases heq : q = q'
  · subst heq
    rw [tokens_eq]
    rcases hq with rfl | rfl
    · rw [leaf?_var, if_neg (by simp), if_pos rfl]
    · rw [leaf?_text, if_neg (by simp), if_neg (by decide)]
  · rw [leaf?_tokens hq heq, if_pos heq]

end TwoTokens

/-- When what is read from a text comes from single tokens, and what becomes of a text of two tokens
that are not divided: it fails in any state if their quotes differ, and otherwise it is a variable,
which may never have been declared, or a text. -/
theorem ofString_tokens (t : String) :
    ((ofString t).QuoteFree ↔ ∀ a, Operand t.toList a → ¬ RunTogether a) ∧
      ∀ {q q' : Char} {a m b : List Char}, t = String.ofList (tokens q a m q' b) →
        IsQuote q → IsQuote q' → q ∉ a → q' ∉ b → (∀ c ∈ m, ¬ IsQuote c) →
        (∀ op : BinaryOperator, ¬ op.keyword.toList <:+: m) →
        ∀ (call : Callee) (s : Machine),
          (ofString t).eval call s =
            let inside := String.ofList (a ++ q :: (m ++ q' :: b))
            if q ≠ q' then .error { fault := .unresolved t } s
            else if q = '\'' then
              .ok (((s.store.lookup? inside).map Variable.value).getD (.int 0)) s
            else .ok (.text inside) s := by
  refine ⟨quoteFree_iff, ?_⟩
  rintro q q' a m b rfl hq hq' ha hb hm hword call s
  rw [ofString, String.toList_ofList, ofChars_tokens hq hq' ha hb hm hword]
  split
  · rfl
  split
  · rfl
  · rfl

/-- A misspelt operator between tokens with different quotes makes an expression that cannot be
resolved. -/
theorem ofString_tokens_misspelt : (∀ c ∈ [' ', '하', '학', '범', ' '], ¬ IsQuote c) ∧
    (∀ op : BinaryOperator, ¬ op.keyword.toList <:+: [' ', '하', '학', '범', ' ']) ∧
    ∀ (call : Callee) (s : Machine),
      let t := String.ofList (tokens '\'' ['a'] [' ', '하', '학', '범', ' '] '"' ['b'])
      (ofString t).eval call s = .error { fault := .unresolved t } s := by
  have hm : ∀ c ∈ [' ', '하', '학', '범', ' '], ¬ IsQuote c := by decide
  have hword (op : BinaryOperator) :
      ¬ op.keyword.toList <:+: [' ', '하', '학', '범', ' '] := by
    cases op <;> decide
  refine ⟨hm, hword, fun call s ↦ ?_⟩
  exact (ofString_tokens _).2 rfl (.inl rfl) (.inr rfl) (by decide) (by decide) hm hword call s

/-- Two variables around a misspelt keyword are read as one. -/
theorem ofString_misspelt : ofString "'a' 하학범 'b'" = var "a' 하학범 'b" ∧
    ¬ (ofString "'a' 하학범 'b'").QuoteFree := by
  have htext : "'a' 하학범 'b'".toList =
      tokens '\'' ['a'] [' ', '하', '학', '범', ' '] '\'' ['b'] := by decide
  have hword (op : BinaryOperator) :
      ¬ op.keyword.toList <:+: [' ', '하', '학', '범', ' '] := by
    cases op <;> decide
  have hread : ofString "'a' 하학범 'b'" = var "a' 하학범 'b" := by
    rw [ofString, htext, ofChars_tokens (.inl rfl) (.inl rfl) (by decide) (by decide) (by decide)
      hword, if_neg (by simp), if_pos rfl]
    rfl
  rw [hread]
  exact ⟨rfl, fun h ↦ h.1 _ .self (by decide)⟩

end Expr

end Haklang

import Haklang.Proofs.Cond.Comparison

/-!
# Which operator binds looser

There are no tokens: an operator is found by its keyword, anywhere in the text that is not quoted
and not in parentheses, and the two sides are read on their own. Nothing in that says that the tree
has the operators in the order of their ranks. It has, whatever the text (`ofString_bindsByRank`),
and so have the connectives of conditions.

What it rests on is that a keyword which is absent from a text is absent from both sides of every
division of it (`Text.Absent.sides`). A side is a part of the text, but the scan of it starts
afresh and stops earlier, and its blanks are taken away. The division stands outside quotes and
parentheses, where a scan that starts afresh stands as well; a text that is cut off holds no new
keywords; and blanks open nothing. So a looser operator than the one that divides a text is on
neither side of it, and the operator itself is not on the left, where it would have been found
first.
-/

namespace Haklang

-- As in the comparisons, statements on the members of a list are decided along the list.
attribute [local instance (high)] List.decidableBAll

open Text Nesting

/-! ### Expressions -/

namespace Expr

/-- The operator that divides a text is the one of lowest rank whose keyword stands in it. -/
theorem divide?_eq_some_iff {cs l r : List Char} {op : BinaryOperator} :
    divide? cs = some (op, l, r) ↔ splitAtWord? op.keyword.toList cs = some (l, r) ∧
      ∀ o : BinaryOperator, o.rank < op.rank → Absent o.keyword.toList {} cs [] := by
  refine ⟨fun h ↦ ?_, fun ⟨hsplit, hlow⟩ ↦ divide?_eq_some hsplit hlow⟩
  obtain ⟨before, op', after, hranked, hop, hbefore⟩ := List.findSome?_eq_some_iff.1 h
  obtain ⟨⟨l', r'⟩, hsplit, heq⟩ := Option.map_eq_some_iff.1 hop
  obtain ⟨rfl, rfl, rfl⟩ : op' = op ∧ l' = l ∧ r' = r := by simpa using heq
  have habsent : ∀ o ∈ before, Absent o.keyword.toList {} cs [] := fun o ho ↦
    splitAtWordFrom?_eq_none_iff.1 (Option.map_eq_none_iff.1 (hbefore o ho))
  refine ⟨hsplit, fun o ho ↦ habsent o ?_⟩
  -- the operator stands right behind those before it, so a lower rank is a place among them
  have hop' : op' ∉ before := fun hmem ↦ not_absent_of_splitAtWord? hsplit (habsent op' hmem)
  by_contra hmem
  rw [BinaryOperator.rank, BinaryOperator.rank, hranked, List.idxOf_append_of_notMem hmem,
    List.idxOf_append_of_notMem hop', List.idxOf_cons_self] at ho
  omega

theorem isBlank_of_mem_keyword {op : BinaryOperator} {c : Char} (hc : c ∈ op.keyword.toList) :
    isBlank c = false := by
  revert c
  cases op <;> decide

/-- What does not begin with the negation keyword is read as no opposite. -/
theorem isNegate_ofChars {cs : List Char} (hneg : after? negateWord.toList (trim cs) = none) :
    (ofChars cs).isNegate = false := by
  rw [ofChars_eq, hneg]
  rcases divide? (trim cs) with - | ⟨op, l, r⟩
  · rcases hleaf : leaf? (trim cs) with - | e
    · rcases callParts? (trim cs) with - | ⟨name, args⟩ <;> rfl
    · obtain ⟨_, _, rfl⟩ | ⟨_, _, rfl⟩ | ⟨_, _, rfl⟩ | ⟨_, _, rfl⟩ | ⟨_, _, rfl⟩ :=
        leaf?_cases hleaf <;> rfl
  · rfl

/-- The left side of an operator is no opposite: the text would begin with the negation keyword as
well, which is looked for before any operator. -/
theorem isNegate_left {cs l r w : List Char} (hneg : after? negateWord.toList (trim cs) = none)
    (hsplit : splitAtWord? w (trim cs) = some (l, r)) : (ofChars l).isNegate = false := by
  rcases hrest : after? negateWord.toList (trim l) with - | rest
  · exact isNegate_ofChars hrest
  exfalso
  obtain ⟨blanks, blanks', hl, hblank, -⟩ := exists_eq_trim l
  have hcs : trim cs = blanks ++ (negateWord.toList ++ (rest ++ (blanks' ++ (w ++ r)))) := by
    rw [splitAtWord?_eq_some hsplit, hl, after?_eq_some_iff.1 hrest]
    simp only [List.append_assoc]
  cases blanks with
  | nil =>
    rw [hcs, List.nil_append, after?_append] at hneg
    cases hneg
  | cons c blanks =>
    have hc : isBlank c = false := (tight_trim cs).1 c (by rw [hcs]; rfl)
    rw [hblank c List.mem_cons_self] at hc
    cases hc

/-- At every operator of an expression, those on its left are of higher ranks and those on its right
are not of lower ones, arguments of calls apart; and the left side is no opposite. -/
def BindsByRank (e : Expr) : Prop :=
  ∀ op l r, Within (binary op l r) e →
    (∀ o ∈ l.operators, op.rank < o.rank) ∧ (∀ o ∈ r.operators, op.rank ≤ o.rank) ∧
      l.isNegate = false

/-- The induction is along the reader: a text is divided where no looser keyword stands, so none
stands on either side. -/
theorem bindsByRank_ofChars (cs : List Char) : (ofChars cs).BindsByRank := by
  induction cs using ofChars.induct with
  | case1 cs rest hneg ih =>
    rw [ofChars_eq, hneg]
    intro op l r h
    cases h with
    | negate h => exact ih op l r h
  | case2 cs hneg op l r hdiv ihl ihr =>
    rw [ofChars_eq, hneg, hdiv]
    intro op' l' r' h
    cases h with
    | left h => exact ihl op' l' r' h
    | right h => exact ihr op' l' r' h
    | self =>
      obtain ⟨hsplit, hlow⟩ := divide?_eq_some_iff.1 hdiv
      have hsides (o : BinaryOperator) (ho : o.rank < op.rank) :=
        (hlow o ho).sides hsplit (after_keyword op)
      have hleft : ∀ o ∈ (ofChars l).operators, op.rank ≤ o.rank := fun o ho ↦ by
        by_contra hlt
        exact not_mem_operators_of_absent (hsides o (Nat.lt_of_not_le hlt)).1 ho
      refine ⟨fun o ho ↦ Nat.lt_of_le_of_ne (hleft o ho) fun heq ↦ ?_, fun o ho ↦ ?_,
        isNegate_left hneg hsplit⟩
      · -- of the same rank is only the same operator, and the text is divided at its first place
        obtain rfl : op = o := (List.idxOf_inj op.mem_ranked).1 heq
        exact not_mem_operators_of_absent (absent_left_of_splitAtWord? hsplit) ho
      · by_contra hlt
        exact not_mem_operators_of_absent (hsides o (Nat.lt_of_not_le hlt)).2 ho
  | case3 cs hneg hdiv e hleaf =>
    rw [ofChars_eq, hneg, hdiv, hleaf]
    intro op l r h
    obtain ⟨_, _, rfl⟩ | ⟨_, _, rfl⟩ | ⟨_, _, rfl⟩ | ⟨_, _, rfl⟩ | ⟨_, _, rfl⟩ :=
      leaf?_cases hleaf <;> cases h
  | case4 cs hneg hdiv hleaf name args hcall ih =>
    rw [ofChars_eq, hneg, hdiv, hleaf, hcall]
    intro op l r h
    cases h with
    | argument hmem h =>
      obtain ⟨arg, harg, rfl⟩ := List.mem_map.1 hmem
      exact ih arg harg op l r h
  | case5 cs hneg hdiv hleaf hcall =>
    rw [ofChars_eq, hneg, hdiv, hleaf, hcall]
    intro op l r h
    cases h

/-- The loosest operator that stands in a text is in the tree. Opposites are passed through, since
their keyword opens nothing. -/
theorem mem_operators_of_not_absent {cs : List Char} {op : BinaryOperator}
    (h : ¬ Absent op.keyword.toList {} cs [])
    (hlow : ∀ o : BinaryOperator, o.rank < op.rank → Absent o.keyword.toList {} cs []) :
    op ∈ (ofChars cs).operators := by
  have htrim : ¬ Absent op.keyword.toList {} (trim cs) [] := fun habsent ↦
    h (habsent.of_trim op.keyword_ne_nil fun c hc ↦ isBlank_of_mem_keyword hc)
  induction cs using ofChars.induct with
  | case1 cs rest hneg ih =>
    -- the word for an opposite holds no character of a keyword, so what it hid is in the rest
    have hword : ∀ c ∈ negateWord.toList, c ∉ op.keyword.toList := by cases op <;> decide
    have hiff (o : BinaryOperator) : Absent o.keyword.toList {} (trim cs) [] →
        Absent o.keyword.toList {} rest [] := fun habsent ↦ by
      rw [after?_eq_some_iff.1 hneg, absent_append] at habsent
      exact habsent.2
    have hrest : ¬ Absent op.keyword.toList {} rest [] := fun habsent ↦ by
      rw [after?_eq_some_iff.1 hneg, absent_append] at htrim
      exact htrim ⟨.of_forall_not_mem op.keyword_ne_nil hword, habsent⟩
    rw [ofChars_eq, hneg]
    exact ih hrest (fun o ho ↦ hiff o (hlow o ho).trim) fun habsent ↦
      hrest (habsent.of_trim op.keyword_ne_nil fun c hc ↦ isBlank_of_mem_keyword hc)
  | case2 cs hneg op' l r hdiv ihl ihr =>
    obtain ⟨hsplit, hlow'⟩ := divide?_eq_some_iff.1 hdiv
    -- the operator is the one that the text is divided at, since neither can be looser
    have hle : op'.rank ≤ op.rank := Nat.le_of_not_lt fun hlt ↦ htrim (hlow' op hlt)
    have hge : op.rank ≤ op'.rank := Nat.le_of_not_lt fun hlt ↦
      not_absent_of_splitAtWord? hsplit (hlow op' hlt).trim
    obtain rfl : op = op' := (List.idxOf_inj op.mem_ranked).1 (Nat.le_antisymm hge hle)
    rw [ofChars_eq, hneg, hdiv]
    exact List.mem_append_right _ List.mem_cons_self
  | case3 cs hneg hdiv e hleaf => exact absurd (divide?_eq_none_iff.1 hdiv op) htrim
  | case4 cs hneg hdiv hleaf name args hcall ih =>
    exact absurd (divide?_eq_none_iff.1 hdiv op) htrim
  | case5 cs hneg hdiv hleaf hcall => exact absurd (divide?_eq_none_iff.1 hdiv op) htrim

/-- The loosest operator of the tree is the loosest one that stands in the text. -/
theorem loosest_iff {cs : List Char} {op : BinaryOperator} :
    (op ∈ (ofChars cs).operators ∧ ∀ o ∈ (ofChars cs).operators, op.rank ≤ o.rank) ↔
      ¬ Absent op.keyword.toList {} cs [] ∧
        ∀ o : BinaryOperator, o.rank < op.rank → Absent o.keyword.toList {} cs [] := by
  constructor
  · rintro ⟨hop, hmin⟩
    refine ⟨fun habsent ↦ not_mem_operators_of_absent habsent hop, fun o ho ↦ ?_⟩
    -- the loosest of the looser operators would be in the tree
    induction hrank : o.rank using Nat.strongRecOn generalizing o with
    | _ n ih =>
      by_contra habsent
      have hmem := mem_operators_of_not_absent habsent fun o' ho' ↦
        ih o'.rank (hrank ▸ ho') o' (Nat.lt_trans ho' ho) rfl
      exact Nat.not_le_of_lt ho (hmin o hmem)
  · rintro ⟨hop, hlow⟩
    refine ⟨mem_operators_of_not_absent hop hlow, fun o ho ↦ Nat.le_of_not_lt fun hlt ↦ ?_⟩
    exact not_mem_operators_of_absent (hlow o hlt) ho

end Expr

/-! ### Conditions -/

namespace Cond

/-- The conditions that a condition is made of, itself included. -/
inductive Within (a : Cond) : Cond → Prop where
  /-- The condition itself. -/
  | self : Within a a
  /-- On the left of an alternative. -/
  | orLeft {l r : Cond} (h : Within a l) : Within a (or l r)
  /-- On the right of an alternative. -/
  | orRight {l r : Cond} (h : Within a r) : Within a (or l r)
  /-- On the left of a conjunction. -/
  | andLeft {l r : Cond} (h : Within a l) : Within a (and l r)
  /-- On the right of a conjunction. -/
  | andRight {l r : Cond} (h : Within a r) : Within a (and l r)

/-- The keyword between the two sides of a condition, if there are two. -/
def connective? : Cond → Option String
  | or _ _ => some orWord
  | and _ _ => some andWord
  | _ => none

/-- The expressions of a condition. -/
def operands : Cond → List Expr
  | literal _ => []
  | or l r => l.operands ++ r.operands
  | and l r => l.operands ++ r.operands
  | compare _ l r => [l, r]
  | holds e => [e]

/-- No alternative stands in a conjunction, neither connective has itself on its left, and in all
expressions operators bind by rank. -/
structure BindsByRank (c : Cond) : Prop where
  /-- An alternative binds looser than a conjunction. -/
  and_or : ∀ l r, Within (and l r) c → ∀ a b, ¬ Within (or a b) (and l r)
  /-- Alternatives nest to the right. -/
  or_left : ∀ l r, Within (or l r) c → ∀ a b, ¬ Within (or a b) l
  /-- Conjunctions nest to the right. -/
  and_left : ∀ l r, Within (and l r) c → ∀ a b, ¬ Within (and a b) l
  /-- The expressions. -/
  operands : ∀ e ∈ c.operands, e.BindsByRank

/-- What is read from a text without the keyword of a connective does not have the connective. -/
theorem connective?_ne_of_absent {w : String} {cs : List Char} (h : Absent w.toList {} cs [])
    {c : Cond} (hc : Within c (ofChars cs)) : c.connective? ≠ some w := by
  -- what divides a text at all is another word, and both of its sides lack the given one
  have hsides {w' : String} {cs l r : List Char} (h : Absent w.toList {} cs [])
      (hsplit : splitAtWord? w'.toList (trim cs) = some (l, r))
      (hw' : ({} : Nesting).after .round w'.toList = {}) :
      w' ≠ w ∧ Absent w.toList {} l [] ∧ Absent w.toList {} r [] := by
    refine ⟨?_, h.trim.sides hsplit hw'⟩
    rintro rfl
    exact not_absent_of_splitAtWord? hsplit h.trim
  induction cs using ofChars.induct with
  | case1 cs htrue =>
    rw [ofChars_eq, if_pos htrue] at hc
    cases hc
    exact nofun
  | case2 cs htrue hfalse =>
    rw [ofChars_eq, if_neg htrue, if_pos hfalse] at hc
    cases hc
    exact nofun
  | case3 cs htrue hfalse l r hor ihl ihr =>
    obtain ⟨hne, hl, hr⟩ := hsides h hor rfl
    rw [ofChars_eq, if_neg htrue, if_neg hfalse, hor] at hc
    cases hc with
    | self => exact fun heq ↦ hne (Option.some.inj heq)
    | orLeft hc => exact ihl hl hc
    | orRight hc => exact ihr hr hc
  | case4 cs htrue hfalse hor l r hand ihl ihr =>
    obtain ⟨hne, hl, hr⟩ := hsides h hand rfl
    rw [ofChars_eq, if_neg htrue, if_neg hfalse, hor, hand] at hc
    cases hc with
    | self => exact fun heq ↦ hne (Option.some.inj heq)
    | andLeft hc => exact ihl hl hc
    | andRight hc => exact ihr hr hc
  | case5 cs htrue hfalse hor hand rel l r hdiv =>
    rw [ofChars_eq, if_neg htrue, if_neg hfalse, hor, hand, hdiv] at hc
    cases hc
    exact nofun
  | case6 cs htrue hfalse hor hand hdiv =>
    rw [ofChars_eq, if_neg htrue, if_neg hfalse, hor, hand, hdiv] at hc
    cases hc
    exact nofun

/-- A condition without connectives has expressions whose operators bind by rank. -/
theorem bindsByRank_of_connective?_eq_none {c : Cond} (h : c.connective? = none)
    (hoperands : ∀ e ∈ c.operands, e.BindsByRank) : c.BindsByRank where
  and_or l r hc := by cases hc <;> cases h
  or_left l r hc := by cases hc <;> cases h
  and_left l r hc := by cases hc <;> cases h
  operands := hoperands

/-- An alternative with none on its left. -/
theorem bindsByRank_or {l r : Cond} (hl : l.BindsByRank) (hr : r.BindsByRank)
    (hleft : ∀ a b, ¬ Within (or a b) l) : (or l r).BindsByRank where
  and_or a b hc := by
    cases hc with
    | orLeft hc => exact hl.and_or a b hc
    | orRight hc => exact hr.and_or a b hc
  or_left a b hc := by
    cases hc with
    | self => exact hleft
    | orLeft hc => exact hl.or_left a b hc
    | orRight hc => exact hr.or_left a b hc
  and_left a b hc := by
    cases hc with
    | orLeft hc => exact hl.and_left a b hc
    | orRight hc => exact hr.and_left a b hc
  operands e he := (List.mem_append.1 he).elim (hl.operands e) (hr.operands e)

/-- A conjunction with none on its left, and with no alternative inside. -/
theorem bindsByRank_and {l r : Cond} (hl : l.BindsByRank) (hr : r.BindsByRank)
    (hleft : ∀ a b, ¬ Within (and a b) l) (hor : ∀ a b, ¬ Within (or a b) (and l r)) :
    (and l r).BindsByRank where
  and_or a b hc := by
    cases hc with
    | self => exact hor
    | andLeft hc => exact hl.and_or a b hc
    | andRight hc => exact hr.and_or a b hc
  or_left a b hc := absurd hc (hor a b)
  and_left a b hc := by
    cases hc with
    | self => exact hleft
    | andLeft hc => exact hl.and_left a b hc
    | andRight hc => exact hr.and_left a b hc
  operands e he := (List.mem_append.1 he).elim (hl.operands e) (hr.operands e)

/-- Alternatives are looked for before conjunctions, so a text that is divided at a conjunction
holds no alternative. -/
theorem bindsByRank_ofChars (cs : List Char) : (ofChars cs).BindsByRank := by
  induction cs using ofChars.induct with
  | case1 cs htrue =>
    rw [ofChars_eq, if_pos htrue]
    exact bindsByRank_of_connective?_eq_none rfl nofun
  | case2 cs htrue hfalse =>
    rw [ofChars_eq, if_neg htrue, if_pos hfalse]
    exact bindsByRank_of_connective?_eq_none rfl nofun
  | case3 cs htrue hfalse l r hor ihl ihr =>
    have hleft := absent_left_of_splitAtWord? hor
    rw [ofChars_eq, if_neg htrue, if_neg hfalse, hor]
    exact bindsByRank_or ihl ihr fun _ _ h ↦ connective?_ne_of_absent hleft h rfl
  | case4 cs htrue hfalse hor l r hand ihl ihr =>
    have hleft := absent_left_of_splitAtWord? hand
    obtain ⟨hl, hr⟩ := (splitAtWordFrom?_eq_none_iff.1 hor).sides hand rfl
    rw [ofChars_eq, if_neg htrue, if_neg hfalse, hor, hand]
    refine bindsByRank_and ihl ihr (fun _ _ h ↦ connective?_ne_of_absent hleft h rfl) fun _ _ h ↦ ?_
    -- there is no alternative on either side
    cases h with
    | andLeft h => exact connective?_ne_of_absent hl h rfl
    | andRight h => exact connective?_ne_of_absent hr h rfl
  | case5 cs htrue hfalse hor hand rel l r hdiv =>
    rw [ofChars_eq, if_neg htrue, if_neg hfalse, hor, hand, hdiv]
    refine bindsByRank_of_connective?_eq_none rfl fun e he ↦ ?_
    rcases List.mem_pair.1 he with rfl | rfl
    · exact Expr.bindsByRank_ofChars l
    · exact Expr.bindsByRank_ofChars r
  | case6 cs htrue hfalse hor hand hdiv =>
    rw [ofChars_eq, if_neg htrue, if_neg hfalse, hor, hand, hdiv]
    refine bindsByRank_of_connective?_eq_none rfl fun e he ↦ ?_
    rw [List.mem_singleton.1 he]
    exact Expr.bindsByRank_ofChars (trim cs)

end Cond

/-- Whatever the text, with quotes and parentheses that are closed or not, operators bind by rank.
In the expression that is read from it, no operator has one of its own or a lower rank on its left
or one of a lower rank on its right, in the arguments of calls as outside of them, and its left side
is no opposite. The loosest operator of the expression is the loosest one that stands in the text
outside quotes and parentheses. In the condition that is read from it, no alternative stands in a
conjunction, and both connectives nest to the right. -/
theorem ofString_bindsByRank (t : String) :
    (Expr.ofString t).BindsByRank ∧
      (∀ op : BinaryOperator,
        (op ∈ (Expr.ofString t).operators ∧
            ∀ o ∈ (Expr.ofString t).operators, op.rank ≤ o.rank) ↔
          ¬ Absent op.keyword.toList {} t.toList [] ∧
            ∀ o : BinaryOperator, o.rank < op.rank → Absent o.keyword.toList {} t.toList []) ∧
      (Cond.ofString t).BindsByRank :=
  ⟨Expr.bindsByRank_ofChars _, fun _ ↦ Expr.loosest_iff, Cond.bindsByRank_ofChars _⟩

end Haklang

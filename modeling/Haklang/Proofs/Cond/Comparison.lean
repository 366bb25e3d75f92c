import Haklang.Proofs.Expr.Operand

/-!
# Reading comparisons of written expressions

A comparison is written as two expressions around a relation keyword. It is read in the other order:
the first keyword of the list that stands anywhere in the text divides it. The keyword of `lt` is
part of the keywords of multiplication and division, so these two operators, and they alone, can
move the place of the division. What follows is the exact condition under which a comparison is read
as the one that was written (`ofString_compared`).

* The keyword of `lt` may not stand in a left operand, where it would be found first.
* The keyword of `gt` comes after that of `lt`, so neither operand may hold the latter.
* The other keywords come first and are part of no operator.

That a product or a quotient really spoils the reading, and does not lead to the same tree by
another way, is `not_mem_operators_of_absent`: what is read from a text without a keyword does not
have its operator. A single expression is read as the condition that its value holds under the
condition of `lt`, since then no keyword of a relation may stand in it.
-/

namespace Haklang

-- Statements on the members of a list are decided along the list, whatever other instances are in
-- sight.
attribute [local instance (high)] List.decidableBAll

open Text Nesting

namespace Expr

/-- An expression with a product or a quotient outside the arguments of calls. -/
def Scaled (e : Expr) : Prop := ∃ op ∈ e.operators, op = .multiply ∨ op = .divide

/-- Every function that the expression calls has a name without the words. -/
def NamesLack (ws : List String) (e : Expr) : Prop :=
  ∀ name ∈ e.callees, ∀ w ∈ ws, ¬ w.toList <:+: name.toList

/-- A keyword opens and closes nothing. -/
theorem after_keyword (op : BinaryOperator) :
    ({} : Nesting).after .round op.keyword.toList = {} := by
  cases op <;> rfl

/-- What is read from a text without a keyword does not have its operator. -/
theorem not_mem_operators_of_absent {cs : List Char} {op : BinaryOperator}
    (h : Absent op.keyword.toList {} cs []) : op ∉ (ofChars cs).operators := by
  induction cs using ofChars.induct with
  | case1 cs rest hneg ih =>
    -- behind the word for an opposite a scan is where it was in front of it
    have htrim := h.trim
    rw [after?_eq_some_iff.1 hneg, absent_append] at htrim
    rw [ofChars_eq, hneg]
    exact ih htrim.2
  | case2 cs hneg o l r hdiv ihl ihr =>
    obtain ⟨o', _, ho⟩ := List.exists_of_findSome?_eq_some hdiv
    obtain ⟨⟨l', r'⟩, hsplit, heq⟩ := Option.map_eq_some_iff.1 ho
    obtain ⟨rfl, rfl, rfl⟩ : o' = o ∧ l' = l ∧ r' = r := by simpa using heq
    have hne : op ≠ o' := by
      rintro rfl
      exact not_absent_of_splitAtWord? hsplit h.trim
    obtain ⟨hl, hr⟩ := h.trim.sides hsplit (after_keyword o')
    have hleft : op ∉ (ofChars l').operators := ihl hl
    have hright : op ∉ (ofChars r').operators := ihr hr
    rw [ofChars_eq, hneg, hdiv]
    simpa [operators, hne] using ⟨hleft, hright⟩
  | case3 cs hneg hdiv e hleaf =>
    rw [ofChars_eq, hneg, hdiv, hleaf]
    show op ∉ e.operators
    rw [operators_of_leaf? hleaf]
    exact List.not_mem_nil
  | case4 cs hneg hdiv hleaf name args hcall ih =>
    rw [ofChars_eq, hneg, hdiv, hleaf, hcall]
    exact List.not_mem_nil
  | case5 cs hneg hdiv hleaf hcall =>
    rw [ofChars_eq, hneg, hdiv, hleaf, hcall]
    exact List.not_mem_nil

/-- The places of decimals are no matter of operators. -/
theorem operators_withPlaces (e : Expr) : e.withPlaces.operators = e.operators := by
  induction e using operators.induct with
  | case1 e ih => exact ih
  | case2 op l r ihl ihr => rw [withPlaces, operators, operators, ihl, ihr]
  | case3 e hnegate hbinary =>
    cases e with
    | negate e => exact absurd rfl (hnegate e)
    | binary op l r => exact absurd rfl (hbinary op l r)
    | _ => rfl

end Expr

namespace Cond

/-- A comparison as text. -/
def compared (l : Expr) (w : String) (r : Expr) : String :=
  String.ofList (l.write ++ (spaced w ++ r.write))

/-! ### The keywords -/

/-- The keywords of the relations. -/
def relationWords : List String := Relation.keywords.map Prod.fst

/-- The keywords of the connectives. -/
def connectives : List String := [orWord, andWord]

/-- A keyword is looked for before those that are part of it; that of `gt` comes last. -/
theorem keywords_pairwise : Relation.keywords.Pairwise fun q p ↦
    ¬ q.1.toList <:+: spaced p.1 ∧ q.2 ≠ .gt ∧ (q.2 = .lt → p.2 = .gt) := by
  decide +kernel

/-- The words for relations are made of no marks and have no blanks. -/
theorem isWord_of_mem_keywords {p : String × Relation} (hp : p ∈ Relation.keywords) :
    Expr.IsWord p.1.toList ∧ ' ' ∉ p.1.toList := by
  rw [Expr.isWord_iff]
  revert p
  decide +kernel

/-- The connectives are words, and no part of a relation that stands between blanks. -/
theorem isWord_of_mem_connectives {w : String} (hw : w ∈ connectives) :
    Expr.IsWord w.toList ∧ ∀ p ∈ Relation.keywords, ¬ w.toList <:+: spaced p.1 := by
  rw [Expr.isWord_iff]
  revert w
  decide +kernel

/-- Of the relations, only the keyword of `lt` is part of an operator, and of these two. -/
theorem isInfix_infixed_iff {p : String × Relation} (hp : p ∈ Relation.keywords)
    (op : BinaryOperator) :
    p.1.toList <:+: op.infixed ↔ p.2 = .lt ∧ (op = .multiply ∨ op = .divide) := by
  revert p
  cases op <;> decide +kernel

/-- The word for less than is a part of the two keywords that multiply and divide. -/
theorem isInfix_keyword {p : String × Relation} (hp : p ∈ Relation.keywords) (hlt : p.2 = .lt)
    {op : BinaryOperator} (hop : op = .multiply ∨ op = .divide) :
    p.1.toList <:+: op.keyword.toList := by
  revert p
  rcases hop with rfl | rfl <;> decide +kernel

/-- The keyword of `lt` is looked for before that of `gt`. -/
theorem exists_lt_of_gt {before after : List (String × Relation)} {p : String × Relation}
    (h : Relation.keywords = before ++ p :: after) (hp : p.2 = .gt) :
    ∃ w, (w, Relation.lt) ∈ before := by
  have hmem : ("비만", Relation.lt) ∈ before ++ p :: after := h ▸ by decide
  have hpairwise := keywords_pairwise
  rw [h, List.pairwise_append, List.pairwise_cons] at hpairwise
  rcases List.mem_append.1 hmem with hmem | hmem
  · exact ⟨_, hmem⟩
  · rcases List.mem_cons.1 hmem with rfl | hmem
    · cases hp
    · exact absurd hp (hpairwise.2.1.1 _ hmem).2.1

/-- No operator between blanks holds a connective. -/
theorem not_isInfix_infixed {w : String} (hw : w ∈ connectives) (op : BinaryOperator) :
    ¬ w.toList <:+: op.infixed := by
  revert w
  cases op <;> decide +kernel

/-- A keyword of a relation is part of an expression only if it is that of `lt`, which products and
quotients hold. -/
theorem foreign_iff {p : String × Relation} (hp : p ∈ Relation.keywords) {e : Expr}
    (he : e.NamesLack relationWords) : Expr.Foreign p.1.toList e ↔ (p.2 = .lt → ¬ e.Scaled) := by
  have hnames : ∀ n ∈ e.callees, ¬ p.1.toList <:+: n.toList := fun n hn ↦
    he n hn p.1 (List.mem_map_of_mem hp)
  rw [Expr.Foreign, and_iff_left hnames]
  simp only [isInfix_infixed_iff hp, Expr.Scaled, not_and, not_exists]
  exact ⟨fun h hlt op hop ↦ h op hop hlt, fun h op hop hlt ↦ h hlt op hop⟩

/-- So an expression is free of connectives if the names of the functions that it calls are. -/
theorem foreign_connectives_iff {e : Expr} :
    (∀ w ∈ connectives, Expr.Foreign w.toList e) ↔ e.NamesLack connectives :=
  ⟨fun h n hn w hw ↦ (h w hw).2 n hn,
    fun h w hw ↦ ⟨fun op _ ↦ not_isInfix_infixed hw op, fun n hn ↦ h n hn w hw⟩⟩

/-! ### Divisions -/

/-- What a condition is read as, one level deep. -/
theorem ofChars_eq (cs : List Char) :
    ofChars cs =
      if trim cs = trueWord.toList then literal true
      else if trim cs = falseWord.toList then literal false
      else
        match splitAtWord? orWord.toList (trim cs) with
        | some (l, r) => or (ofChars l) (ofChars r)
        | none =>
          match splitAtWord? andWord.toList (trim cs) with
          | some (l, r) => and (ofChars l) (ofChars r)
          | none =>
            match divide? (trim cs) with
            | some (rel, l, r) => compare rel (Expr.ofChars l) (Expr.ofChars r)
            | none => holds (Expr.ofChars (trim cs)) := by
  rw [ofChars]
  cases splitAtWord? orWord.toList (trim cs) with
  | some p => rfl
  | none =>
    cases splitAtWord? andWord.toList (trim cs) with
    | some p => rfl
    | none => rfl

/-- The relation that divides a text is the first one in the list whose keyword stands in it. -/
theorem divide?_eq_some_iff {cs l r : List Char} {rel : Relation} :
    divide? cs = some (rel, l, r) ↔ ∃ before p after, Relation.keywords = before ++ p :: after ∧
      p.2 = rel ∧ splitAtWord? p.1.toList cs = some (l, r) ∧
      ∀ q ∈ before, Absent q.1.toList {} cs [] := by
  have hnone {q : String × Relation} :
      (splitAtWord? q.1.toList cs).map (fun x ↦ (q.2, x.1, x.2)) = none ↔
        Absent q.1.toList {} cs [] := by
    rw [Option.map_eq_none_iff, splitAtWord?, splitAtWordFrom?_eq_none_iff]
  rw [divide?, List.findSome?_eq_some_iff]
  constructor
  · rintro ⟨before, p, after, hlist, hp, hbefore⟩
    obtain ⟨⟨l', r'⟩, hsplit, heq⟩ := Option.map_eq_some_iff.1 hp
    obtain ⟨hrel, rfl, rfl⟩ : p.2 = rel ∧ l' = l ∧ r' = r := by simpa using heq
    exact ⟨before, p, after, hlist, hrel, hsplit, fun q hq ↦ hnone.1 (hbefore q hq)⟩
  · rintro ⟨before, p, after, hlist, rfl, hsplit, hbefore⟩
    refine ⟨before, p, after, hlist, ?_, fun q hq ↦ hnone.2 (hbefore q hq)⟩
    show (splitAtWord? p.1.toList cs).map _ = _
    rw [hsplit]
    rfl

/-- A text is compared by nothing exactly if all words for relations are absent. -/
theorem divide?_eq_none_iff {cs : List Char} :
    divide? cs = none ↔ ∀ p ∈ Relation.keywords, Absent p.1.toList {} cs [] := by
  simp only [divide?, List.findSome?_eq_none_iff, Option.map_eq_none_iff, splitAtWord?,
    splitAtWordFrom?_eq_none_iff]

/-- A text in which no connective stands and that is no truth value is read by its relation. -/
theorem ofChars_of_absent {cs : List Char} (htrim : trim cs = cs) (htrue : cs ≠ trueWord.toList)
    (hfalse : cs ≠ falseWord.toList) (h : ∀ w ∈ connectives, Absent w.toList {} cs []) :
    ofChars cs =
      match divide? cs with
      | some (rel, l, r) => compare rel (Expr.ofChars l) (Expr.ofChars r)
      | none => holds (Expr.ofChars cs) := by
  have hor : splitAtWord? orWord.toList cs = none :=
    splitAtWordFrom?_eq_none_iff.2 (h orWord List.mem_cons_self)
  have hand : splitAtWord? andWord.toList cs = none :=
    splitAtWordFrom?_eq_none_iff.2 (h andWord (List.mem_cons_of_mem _ List.mem_cons_self))
  rw [ofChars_eq, htrim, if_neg htrue, if_neg hfalse, hor, hand]

/-- A text is read as a combination of two conditions if a connective stands in it. -/
theorem absent_of_ofChars {cs : List Char} (htrim : trim cs = cs) (htrue : cs ≠ trueWord.toList)
    (hfalse : cs ≠ falseWord.toList) (hor : ∀ a b, ofChars cs ≠ or a b)
    (hand : ∀ a b, ofChars cs ≠ and a b) : ∀ w ∈ connectives, Absent w.toList {} cs [] := by
  rw [ofChars_eq, htrim, if_neg htrue, if_neg hfalse] at hor hand
  cases horWord : splitAtWord? orWord.toList cs with
  | some p =>
    rw [horWord] at hor
    exact absurd rfl (hor _ _)
  | none =>
    rw [horWord] at hand
    cases handWord : splitAtWord? andWord.toList cs with
    | some p =>
      rw [handWord] at hand
      exact absurd rfl (hand _ _)
    | none =>
      intro w hw
      rcases List.mem_cons.1 hw with rfl | hw
      · exact splitAtWordFrom?_eq_none_iff.1 horWord
      · rw [List.mem_singleton.1 hw]
        exact splitAtWordFrom?_eq_none_iff.1 handWord

/-! ### Comparisons -/

section

variable {l r : Expr} {p : String × Relation}

/-- What has blanks around a word is none of the words without blanks. -/
theorem ne_of_not_mem {w : String} {rest v : List Char} (hv : ' ' ∉ v) :
    l.write ++ (spaced w ++ rest) ≠ v := by
  rintro rfl
  exact hv (by simp [spaced])

/-- Where a word is absent from a comparison. -/
theorem absent_compared_iff {v : List Char} (hv : Expr.IsWord v) (hl : l.Canonical)
    (hr : r.Canonical) (hp : p ∈ Relation.keywords) :
    Absent v {} (l.write ++ (spaced p.1 ++ r.write)) [] ↔
      Expr.Foreign v l ∧ ¬ v <:+: spaced p.1 ∧ Expr.Foreign v r := by
  have hword := (isWord_of_mem_keywords hp).1
  rw [absent_append, hl.after_write (.inl rfl), absent_append, hword.after_spaced]
  exact and_congr (hl.absent_iff hv)
    (and_congr (hv.absent_spaced_iff hword hr.marked) (hr.absent_iff hv))

/-- A written comparison has nothing to trim. -/
theorem trim_compared (hl : l.Canonical) (hr : r.Canonical) (w : String) :
    trim (l.write ++ (spaced w ++ r.write)) = l.write ++ (spaced w ++ r.write) :=
  have hmarked := hl.marked.append_append (spaced w) hr.marked
  trim_of_tight hmarked.ne_nil hmarked.tight

/-- No connective divides a comparison exactly if none is in the name of a function. -/
theorem connectives_compared_iff (hl : l.Canonical) (hr : r.Canonical)
    (hp : p ∈ Relation.keywords) :
    (∀ w ∈ connectives, Absent w.toList {} (l.write ++ (spaced p.1 ++ r.write)) []) ↔
      l.NamesLack connectives ∧ r.NamesLack connectives := by
  rw [← foreign_connectives_iff, ← foreign_connectives_iff, ← forall₂_and]
  refine forall₂_congr fun w hw ↦ ?_
  rw [absent_compared_iff (isWord_of_mem_connectives hw).1 hl hr hp,
    and_iff_right ((isWord_of_mem_connectives hw).2 p hp)]

/-- What stands before the keyword of `lt` is read without products and quotients. -/
theorem not_scaled_of_splitAtWord? {cs a b : List Char} (hp : p ∈ Relation.keywords)
    (hlt : p.2 = .lt) (h : splitAtWord? p.1.toList cs = some (a, b)) :
    ¬ (Expr.ofChars a).Scaled := by
  rintro ⟨op, hmem, hop⟩
  have hword := (isWord_of_mem_keywords hp).1
  refine Expr.not_mem_operators_of_absent ((absent_left_of_splitAtWord? h).of_isInfix hword.ne_nil
    (isInfix_keyword hp hlt hop) fun c hc ↦ ?_) hmem
  exact (Expr.isWord_keyword op).isPlain_of_mem_spaced c (by simp [spaced, hc])

/-- The division of a comparison around its own keyword. -/
theorem divide?_compared (hl : l.Canonical) (hr : r.Canonical) (hnl : l.NamesLack relationWords)
    (hnr : r.NamesLack relationWords) (hp : p ∈ Relation.keywords) (hlt : p.2 = .lt → ¬ l.Scaled)
    (hgt : p.2 = .gt → ¬ l.Scaled ∧ ¬ r.Scaled) :
    divide? (l.write ++ (spaced p.1 ++ r.write)) =
      some (p.2, l.write ++ [' '], ' ' :: r.write) := by
  have hword := isWord_of_mem_keywords hp
  obtain ⟨before, after, hlist⟩ := List.append_of_mem hp
  have hpairwise := keywords_pairwise
  rw [hlist, List.pairwise_append] at hpairwise
  refine divide?_eq_some_iff.2 ⟨before, p, after, hlist, rfl, ?_, fun q hq ↦ ?_⟩
  · exact hl.splitAtWord?_spaced hword.1 hword.2 ((foreign_iff hp hnl).2 hlt) r.write
  · obtain ⟨hapart, -, hqlt⟩ := hpairwise.2.2 q hq p List.mem_cons_self
    have hqmem : q ∈ Relation.keywords := hlist ▸ List.mem_append_left _ hq
    refine (absent_compared_iff (isWord_of_mem_keywords hqmem).1 hl hr hp).2 ⟨?_, hapart, ?_⟩
    · exact (foreign_iff hqmem hnl).2 fun h ↦ (hgt (hqlt h)).1
    · exact (foreign_iff hqmem hnr).2 fun h ↦ (hgt (hqlt h)).2

/-- A comparison that is divided with its own relation and its own left side holds no product or
quotient where one would be cut. -/
theorem not_scaled_of_divide? (hl : l.Canonical) (hr : r.Canonical)
    (hnl : l.NamesLack relationWords) (hnr : r.NamesLack relationWords)
    (hp : p ∈ Relation.keywords) {a b : List Char}
    (h : divide? (l.write ++ (spaced p.1 ++ r.write)) = some (p.2, a, b))
    (ha : Expr.ofChars a = l.withPlaces) :
    (p.2 = .lt → ¬ l.Scaled) ∧ (p.2 = .gt → ¬ l.Scaled ∧ ¬ r.Scaled) := by
  -- The keyword `q` that divides need not be `p`, but it has the same relation.
  obtain ⟨before, q, after, hlist, hrel, hsplit, hbefore⟩ := divide?_eq_some_iff.1 h
  have hq : q ∈ Relation.keywords := hlist ▸ List.mem_append_right _ List.mem_cons_self
  constructor
  · intro hlt hscaled
    refine not_scaled_of_splitAtWord? hq (hrel.trans hlt) hsplit ?_
    rwa [ha, Expr.Scaled, Expr.operators_withPlaces]
  · intro hgt
    obtain ⟨w, hw⟩ := exists_lt_of_gt hlist (hrel.trans hgt)
    have hwmem : (w, Relation.lt) ∈ Relation.keywords := hlist ▸ List.mem_append_left _ hw
    obtain ⟨hfl, -, hfr⟩ := (absent_compared_iff (isWord_of_mem_keywords hwmem).1 hl hr hp).1
      (hbefore _ hw)
    exact ⟨(foreign_iff hwmem hnl).1 hfl rfl, (foreign_iff hwmem hnr).1 hfr rfl⟩

/-- When the text of a comparison is read as that comparison. -/
theorem ofChars_compared_iff (hl : l.Canonical) (hr : r.Canonical)
    (hnl : l.NamesLack relationWords) (hnr : r.NamesLack relationWords)
    (hp : p ∈ Relation.keywords) :
    ofChars (l.write ++ (spaced p.1 ++ r.write)) = compare p.2 l.withPlaces r.withPlaces ↔
      (l.NamesLack connectives ∧ r.NamesLack connectives) ∧
        (p.2 = .lt → ¬ l.Scaled) ∧ (p.2 = .gt → ¬ l.Scaled ∧ ¬ r.Scaled) := by
  have htrim := trim_compared hl hr p.1
  have htrue : l.write ++ (spaced p.1 ++ r.write) ≠ trueWord.toList := ne_of_not_mem (by decide)
  have hfalse : l.write ++ (spaced p.1 ++ r.write) ≠ falseWord.toList := ne_of_not_mem (by decide)
  constructor
  · intro h
    have habsent := absent_of_ofChars htrim htrue hfalse (by simp [h]) (by simp [h])
    rw [ofChars_of_absent htrim htrue hfalse habsent] at h
    refine ⟨(connectives_compared_iff hl hr hp).1 habsent, ?_⟩
    cases hdiv : divide? (l.write ++ (spaced p.1 ++ r.write)) with
    | none =>
      rw [hdiv] at h
      cases h
    | some parts =>
      obtain ⟨rel, a, b⟩ := parts
      rw [hdiv] at h
      obtain ⟨rfl, ha, -⟩ := Cond.compare.inj h
      exact not_scaled_of_divide? hl hr hnl hnr hp hdiv ha
  · rintro ⟨hnames, hlt, hgt⟩
    have habsent := (connectives_compared_iff hl hr hp).2 hnames
    rw [ofChars_of_absent htrim htrue hfalse habsent,
      divide?_compared hl hr hnl hnr hp hlt hgt]
    show compare p.2 (Expr.ofChars (l.write ++ [' '])) (Expr.ofChars (' ' :: r.write)) = _
    rw [hl.ofChars_write_append, hl.ofChars_write, hr.ofChars_cons_write, hr.ofChars_write]

/-- Only a truth value is written like one. -/
theorem write_ne_of_ne_bool (hl : l.Canonical) (hbool : ∀ b, l ≠ .bool b) (b : Bool) :
    l.write ≠ (Expr.bool b).write := by
  intro h
  have hread : l.withPlaces = .bool b := by
    rw [← hl.ofChars_write, h, (Expr.Canonical.bool b).ofChars_write, Expr.withPlaces]
  cases l with
  | bool v => exact hbool v rfl
  | _ => cases hread

/-- When the text of an expression is read as the condition that its value holds. -/
theorem ofChars_write_iff (hl : l.Canonical) (hbool : ∀ b, l ≠ .bool b)
    (hnl : l.NamesLack relationWords) :
    ofChars l.write = holds l.withPlaces ↔ l.NamesLack connectives ∧ ¬ l.Scaled := by
  have htrim := hl.trim_write
  have htrue : l.write ≠ trueWord.toList := write_ne_of_ne_bool hl hbool true
  have hfalse : l.write ≠ falseWord.toList := write_ne_of_ne_bool hl hbool false
  have hconnectives : (∀ w ∈ connectives, Absent w.toList {} l.write []) ↔
      l.NamesLack connectives := by
    rw [← foreign_connectives_iff]
    exact forall₂_congr fun w hw ↦ hl.absent_iff (isWord_of_mem_connectives hw).1
  have hdiv : divide? l.write = none ↔ ¬ l.Scaled := by
    rw [divide?_eq_none_iff]
    constructor
    · intro h
      have hlt : ("비만", Relation.lt) ∈ Relation.keywords := by decide
      exact (foreign_iff hlt hnl).1 ((hl.absent_iff (isWord_of_mem_keywords hlt).1).1 (h _ hlt)) rfl
    · intro h p hp
      exact (hl.absent_iff (isWord_of_mem_keywords hp).1).2 ((foreign_iff hp hnl).2 fun _ ↦ h)
  constructor
  · intro h
    have habsent := absent_of_ofChars htrim htrue hfalse (by simp [h]) (by simp [h])
    rw [ofChars_of_absent htrim htrue hfalse habsent] at h
    refine ⟨hconnectives.1 habsent, hdiv.1 ?_⟩
    cases hparts : divide? l.write with
    | none => rfl
    | some parts =>
      rw [hparts] at h
      cases h
  · rintro ⟨hnames, hscaled⟩
    rw [ofChars_of_absent htrim htrue hfalse (hconnectives.2 hnames), hdiv.2 hscaled,
      hl.ofChars_write]

end

/-- When conditions are read from the texts of expressions as from the expressions themselves: a
comparison is the comparison of its two sides unless the keyword of `lt`, which products and
quotients hold, is found in one of them first, and a single expression is that expression unless it
is such a product or quotient. Names of functions may hold no connective. -/
theorem ofString_compared {l r : Expr} (hl : l.Canonical) (hr : r.Canonical)
    (hnl : l.NamesLack relationWords) (hnr : r.NamesLack relationWords) :
    (∀ p ∈ Relation.keywords,
      (ofString (compared l p.1 r) = compare p.2 l.withPlaces r.withPlaces ↔
        (l.NamesLack connectives ∧ r.NamesLack connectives) ∧
          (p.2 = .lt → ¬ l.Scaled) ∧ (p.2 = .gt → ¬ l.Scaled ∧ ¬ r.Scaled))) ∧
      ((∀ b, l ≠ .bool b) →
        (ofString l.render = holds l.withPlaces ↔ l.NamesLack connectives ∧ ¬ l.Scaled)) := by
  refine ⟨fun p hp ↦ ?_, fun hbool ↦ ?_⟩
  · rw [ofString, compared, String.toList_ofList]
    exact ofChars_compared_iff hl hr hnl hnr hp
  · rw [ofString, Expr.render, String.toList_ofList]
    exact ofChars_write_iff hl hbool hnl

/-- A sum compared with a product. The keyword that multiplies holds the word for less than, but the
relation stands in front of it and divides the text. -/
theorem ofString_compared_product :
    ofString (compared (.binary .add (.var "a") (.int 1)) "비만"
        (.binary .multiply (.var "b") (.int { val := 2 }))) =
      compare .lt (.binary .add (.var "a") (.int 1))
        (.binary .multiply (.var "b") (.int { val := 2 })) := by
  have hl : Expr.Canonical (.binary .add (.var "a") (.int 1)) :=
    .binary (.var (by decide)) (.int 1) (by decide) (by decide) rfl
  have hr : Expr.Canonical (.binary .multiply (.var "b") (.int { val := 2 })) :=
    .binary (.var (by decide)) (.int _) (by decide) (by decide) rfl
  refine ((ofString_compared hl hr (by nofun) (by nofun)).1 ("비만", .lt) (by decide)).2 ?_
  refine ⟨⟨by nofun, by nofun⟩, fun _ ↦ ?_, by nofun⟩
  rintro ⟨op, hop, h⟩
  obtain rfl : op = .add := by simpa [Expr.operators] using hop
  exact absurd h (by decide)

/-- A product on the left of the keyword of `lt` is cut in its own keyword. -/
theorem ofString_product_compared :
    Expr.Canonical (.binary .multiply (.var "a") (.int { val := 2 })) ∧
      compared (.binary .multiply (.var "a") (.int { val := 2 })) "비만" (.int { val := 10 }) =
        "'a' 학범비만 2 비만 10" ∧
      ofString "'a' 학범비만 2 비만 10" =
        compare .lt (.unresolved "'a' 학범") (.unresolved "2 비만 10") := by
  have hl : Expr.ofChars "'a' 학범".toList = .unresolved "'a' 학범" := by
    rw [Expr.ofChars_eq]
    rfl
  have hr : Expr.ofChars " 2 비만 10".toList = .unresolved "2 비만 10" := by
    rw [Expr.ofChars_eq]
    rfl
  refine ⟨.binary (.var (by decide)) (.int _) (by decide) (by decide) rfl, by decide +kernel, ?_⟩
  rw [ofString, ofChars_eq, ← hl, ← hr]
  rfl

end Cond

end Haklang

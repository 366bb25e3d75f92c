import Haklang.Proofs.Expr.Written
import Haklang.Proofs.Text.Joined

/-!
# Reading back a written expression

Reading looks for the keyword of lowest rank first and does not know where an operand ends. That a
canonical expression is found again comes from the order of its operators: no keyword of a lower
rank than the outermost one stands in the text (`BinaryOperator.not_isInfix_of_rank_lt` tells
keywords apart that are parts of one another), and the first place of the outermost one is its own,
since the left operand has only operators that bind tighter (`Canonical.divide?_binary`).

Arguments go through the other scan, which cuts at commas (`splitAtCommas_writeAll`), and the name
of a call ends at the first closing bracket (`callParts?_written`).

A decimal is written with at least one place, so a whole decimal comes back with a zero behind its
point. `Expr.withPlaces` is the tree with these places, and `Expr.Same` compares trees up to the
places of their decimals; both say in what way the tree that is read is the one that was written
(`ofString_render`).
-/

namespace Haklang

-- Statements on the members of a list are decided along the list, whatever other instances are in
-- sight.
attribute [local instance (high)] List.decidableBAll

namespace BinaryOperator

/-- No keyword stands in one of a higher rank, together with the blanks around that. -/
theorem not_isInfix_of_rank_lt {op o : BinaryOperator} (h : op.rank < o.rank) :
    ¬ op.keyword.toList <:+: o.infixed := by
  revert h
  cases op <;> cases o <;> decide +kernel

/-- Before an operator stand those of lower ranks. -/
theorem ranked_eq_append (op : BinaryOperator) :
    ∃ before after, ranked = before ++ op :: after ∧ ∀ o ∈ before, o.rank < op.rank :=
  ⟨ranked.take op.rank, ranked.drop (op.rank + 1), by cases op <;> rfl, by cases op <;> decide⟩

end BinaryOperator

namespace Expr

open Text Nesting

/-! ### Places of decimals -/

mutual

/-- The expression in which every decimal has at least one place. -/
def withPlaces : Expr → Expr
  | negate e => negate e.withPlaces
  | binary op l r => binary op l.withPlaces r.withPlaces
  | var name => var name
  | int n => int n
  | decimal d => decimal d.withPlaces
  | text s => text s
  | bool b => bool b
  | call name args => call name (withPlacesAll args)
  | unresolved s => unresolved s

/-- The expressions in which every decimal has at least one place. -/
def withPlacesAll : List Expr → List Expr
  | [] => []
  | e :: rest => e.withPlaces :: withPlacesAll rest

end

/-- Arguments get their places one by one. -/
theorem withPlacesAll_eq_map (args : List Expr) : withPlacesAll args = args.map withPlaces := by
  induction args with
  | nil => rfl
  | cons e rest ih => rw [withPlacesAll, ih, List.map_cons]

mutual

/-- Expressions that are the same when decimals are compared as numbers. -/
inductive Same : Expr → Expr → Prop where
  /-- Opposites of the same. -/
  | negate {e e' : Expr} (h : Same e e') : Same (negate e) (negate e')
  /-- The same operator between the same. -/
  | binary {op : BinaryOperator} {l l' r r' : Expr} (hl : Same l l') (hr : Same r r') :
      Same (binary op l r) (binary op l' r')
  /-- One variable. -/
  | var (name : String) : Same (var name) (var name)
  /-- One integer. -/
  | int (n : Integer) : Same (int n) (int n)
  /-- Decimals that are equal as numbers. -/
  | decimal {d d' : Decimal} (h : Decimal.compare d d' = .eq) : Same (decimal d) (decimal d')
  /-- One text. -/
  | text (s : String) : Same (text s) (text s)
  /-- One truth value. -/
  | bool (b : Bool) : Same (bool b) (bool b)
  /-- Calls of one function with the same arguments. -/
  | call {name : String} {args args' : List Expr} (h : SameAll args args') :
      Same (call name args) (call name args')
  /-- One text that is no expression. -/
  | unresolved (s : String) : Same (unresolved s) (unresolved s)

/-- Lists of expressions that are the same one by one. -/
inductive SameAll : List Expr → List Expr → Prop where
  /-- No expressions. -/
  | nil : SameAll [] []
  /-- The same first ones and the same others. -/
  | cons {e e' : Expr} {rest rest' : List Expr} (h : Same e e') (hrest : SameAll rest rest') :
      SameAll (e :: rest) (e' :: rest')

end

mutual

/-- More places make no other expression. -/
theorem same_withPlaces : ∀ e : Expr, Same e.withPlaces e
  | .negate e => .negate (same_withPlaces e)
  | .binary _ l r => .binary (same_withPlaces l) (same_withPlaces r)
  | .var name => .var name
  | .int n => .int n
  | .decimal d => .decimal d.compare_withPlaces
  | .text s => .text s
  | .bool b => .bool b
  | .call _ args => .call (sameAll_withPlaces args)
  | .unresolved s => .unresolved s

/-- Arguments are the same numbers whether or not they have their places. -/
theorem sameAll_withPlaces : ∀ args : List Expr, SameAll (withPlacesAll args) args
  | [] => .nil
  | e :: rest => .cons (same_withPlaces e) (sameAll_withPlaces rest)

end

/-! ### Atoms -/

/-- Without the quote there is nothing between two of them. -/
theorem between?_eq_none_of_not_mem {q : Char} {cs : List Char} (h : q ∉ cs) :
    between? q cs = none := by
  rw [Option.eq_none_iff_forall_ne_some]
  intro s hs
  rw [between?_eq_some_iff.1 hs] at h
  exact h List.mem_cons_self

/-- No number begins with a quote or a bracket. -/
theorem number?_eq_none {c : Char} (hc : c ∈ ['\'', '"', '[']) (r : List Char) :
    number? (c :: r) = none := by
  have hdigit : c.isDigit = false ∧ c ∉ ['-', '+', '_', '.', 'e', 'E'] := by
    revert c
    decide
  have hint : Integer.read? (c :: r) = none := by
    rw [Integer.read?, Numeral.readInt?, Numeral.read?_eq_none_of_mem List.mem_cons_self hdigit.1]
    · rfl
    · rintro t heq
      rw [(List.cons.inj heq).1] at hdigit
      exact absurd hdigit.2 (by decide)
    · rintro t heq
      rw [(List.cons.inj heq).1] at hdigit
      exact absurd hdigit.2 (by decide)
  rw [number?, hint, Decimal.read?_cons_eq_none hdigit.1 hdigit.2]
  simp

/-- A name between single quotes is a variable. -/
theorem leaf?_var (name : List Char) :
    leaf? ('\'' :: (name ++ ['\''])) = some (var (String.ofList name)) := by
  rw [leaf?, between?_eq_some_iff.2 rfl]

/-- A text between double quotes is a text. -/
theorem leaf?_text (s : List Char) :
    leaf? ('"' :: (s ++ ['"'])) = some (text (String.ofList s)) := by
  have hvar : between? '\'' ('"' :: (s ++ ['"'])) = none := by simp [between?]
  rw [leaf?, hvar, number?_eq_none (by decide), between?_eq_some_iff.2 rfl]
  simp [trueWord, falseWord]

/-- The two words for truth values are read as what they say. -/
theorem leaf?_bool (b : Bool) : leaf? (write (bool b)) = some (bool b) := by
  cases b <;> rfl

/-- What begins with a square bracket is no leaf; it may be a call. -/
theorem leaf?_bracket (r : List Char) : leaf? ('[' :: r) = none := by
  have hvar : between? '\'' ('[' :: r) = none := by simp [between?]
  have htext : between? '"' ('[' :: r) = none := by simp [between?]
  rw [leaf?, hvar, number?_eq_none (by decide), htext]
  simp [trueWord, falseWord]

/-- A number is no other atom. -/
theorem leaf?_of_number? {cs : List Char} {e : Expr} (hcs : ∀ c ∈ cs, IsNumeric c)
    (h : number? cs = some e) : leaf? cs = some e := by
  have hvar : between? '\'' cs = none :=
    between?_eq_none_of_not_mem fun hc ↦ absurd (hcs _ hc) (by decide)
  have htrue : cs ≠ trueWord.toList := by
    rintro rfl
    exact absurd (hcs '야' (by decide)) (by decide)
  have hfalse : cs ≠ falseWord.toList := by
    rintro rfl
    exact absurd (hcs '야' (by decide)) (by decide)
  rw [leaf?, hvar, if_neg htrue, if_neg hfalse, h]

/-- A written integer is read as that integer. -/
theorem leaf?_int (n : Integer) : leaf? n.render.toList = some (int n) := by
  have hpoint : '.' ∉ n.render.toList :=
    fun h ↦ absurd (eq_or_isDigit_of_mem_render h) (by decide)
  refine leaf?_of_number? (fun c hc ↦ isNumeric_of_mem_render hc) ?_
  rw [number?, if_neg hpoint, Integer.read?_render, Option.map_some]

/-- A written decimal is read with the places that it is written with. -/
theorem leaf?_decimal {d : Decimal} (hd : d.scale ≤ 9223372036854775807) :
    leaf? d.write = some (decimal d.withPlaces) := by
  refine leaf?_of_number? (fun c hc ↦ isNumeric_of_mem_write hc) ?_
  rw [number?, if_pos d.point_mem_write, Decimal.read?_write hd, Option.map_some]

/-! ### Calls -/

/-- The name of a call ends at its first closing bracket and the arguments at the end of the
text. -/
theorem callParts?_written {name args : List Char} (hne : name ≠ []) (hclose : ']' ∉ name)
    (hname : '\n' ∉ name) (hargs : '\n' ∉ args) :
    callParts? ('[' :: (name ++ [']']) ++ '(' :: (args ++ [')'])) = some (name, args) := by
  have hrun : longestRun (fun r ↦ after? [')'] r >>= atEnd?) (args ++ [')']) = some (args, ()) :=
    longestRun_append hargs rfl
  have hbrackets : after? "](".toList (']' :: '(' :: (args ++ [')'])) = some (args ++ [')']) :=
    after?_append "](".toList (args ++ [')'])
  rw [List.cons_append, List.append_assoc, callParts?]
  rw [shortestRun_append (a := (args, ())) hne hname]
  · rfl
  · show (after? "](".toList (']' :: '(' :: (args ++ [')'])) >>= _) = _
    rw [hbrackets]
    exact hrun
  -- No shorter name will do: what is left of the name does not begin with a closing bracket.
  · intro u v huv _ hv
    cases v with
    | nil => exact absurd rfl hv
    | cons c v =>
      have hc : ']' ≠ c := by
        rintro rfl
        exact hclose (huv ▸ List.mem_append_right u List.mem_cons_self)
      have hno : after? "](".toList (c :: (v ++ ([']'] ++ '(' :: (args ++ [')'])))) = none := by
        show after? [']', '('] _ = none
        rw [after?, if_neg hc]
      show (after? "](".toList (c :: (v ++ ([']'] ++ '(' :: (args ++ [')'])))) >>= _) = none
      rw [hno]
      rfl

/-- Written arguments stand on one line if each of them does. -/
theorem line_writeAll : ∀ {args : List Expr}, (∀ a ∈ args, '\n' ∉ a.write) → '\n' ∉ writeAll args
  | [], _ => List.not_mem_nil
  | [_], h => h _ List.mem_cons_self
  | e :: e' :: rest, h => by
    have htail : '\n' ∉ writeAll (e' :: rest) :=
      line_writeAll fun a ha ↦ h a (List.mem_cons_of_mem e ha)
    simpa [writeAll] using ⟨h e List.mem_cons_self, htail⟩

/-- Written arguments have a comma and a blank between them. -/
theorem writeAll_eq_intercalate :
    ∀ args : List Expr, writeAll args = [',', ' '].intercalate (args.map write)
  | [] => rfl
  | [e] => by rw [writeAll, List.map_singleton, List.intercalate_singleton]
  | e :: e' :: rest => by
    simp only [writeAll, writeAll_eq_intercalate (e' :: rest), List.map_cons,
      List.intercalate_cons_cons, List.append_assoc, List.cons_append, List.nil_append]

/-- A written expression has nothing to trim. -/
theorem Canonical.trim_write {e : Expr} (h : Canonical e) : trim e.write = e.write :=
  trim_of_tight h.marked.ne_nil h.marked.tight

/-- The blank in front of a right operand is trimmed off. -/
theorem Canonical.trim_cons_write {e : Expr} (h : Canonical e) :
    trim (' ' :: e.write) = e.write := by
  simpa using trim_append_append (l := [' ']) (r := []) h.marked.ne_nil h.marked.tight
    (by decide) (by simp)

/-- The blank behind a left operand is trimmed off. -/
theorem Canonical.trim_write_append {e : Expr} (h : Canonical e) :
    trim (e.write ++ [' ']) = e.write :=
  trim_append_append (l := []) h.marked.ne_nil h.marked.tight (by simp) (by decide)

/-- A written expression is a piece: no comma divides it, and a scan passes over it. -/
theorem Canonical.piece_write {e : Expr} (h : Canonical e) : Piece e.write := by
  refine ⟨h.uncut, ?_⟩
  rw [h.after_write (.inr rfl)]
  rfl

/-- Written arguments are told apart. -/
theorem splitAtCommas_writeAll {args : List Expr} (h : ∀ a ∈ args, Canonical a) :
    splitAtCommas (writeAll args) = args.map write := by
  rcases args with - | ⟨e, args⟩
  · rfl
  have he : Canonical e := h e List.mem_cons_self
  have hargs : ∀ a ∈ args, Canonical a := fun a ha ↦ h a (List.mem_cons_of_mem e ha)
  -- What stands between the commas are the arguments, all but the first with a blank in front.
  have hpiece : ∀ p ∈ e.write :: (args.map write).map (' ' :: ·), Piece p := by
    rw [List.forall_mem_cons, List.map_map, List.forall_mem_map]
    exact ⟨he.piece_write, fun a ha ↦
      (piece_of_isBlank (p := [' ']) (by decide)).append (hargs a ha).piece_write⟩
  have htrim : (e.write :: (args.map write).map (' ' :: ·)).map trim = (e :: args).map write := by
    rw [List.map_cons, he.trim_write, List.map_cons, List.map_map, List.map_map]
    exact congrArg _ (List.map_congr_left fun a ha ↦ (hargs a ha).trim_cons_write)
  have hne : (e :: args).map write ≠ [[]] := fun hblank ↦
    he.marked.ne_nil (List.cons.inj hblank).1
  rw [writeAll_eq_intercalate, List.map_cons, intercalate_comma_blank,
    splitAtCommas_intercalate hpiece (htrim ▸ hne), htrim, List.map_cons]

/-! ### Operators -/

/-- A text is divided at no operator exactly if all of their keywords are absent from it. -/
theorem divide?_eq_none_iff {cs : List Char} :
    divide? cs = none ↔ ∀ op : BinaryOperator, Absent op.keyword.toList {} cs [] := by
  simp only [divide?, List.findSome?_eq_none_iff, Option.map_eq_none_iff, splitAtWord?,
    splitAtWordFrom?_eq_none_iff]
  exact ⟨fun h op ↦ h op op.mem_ranked, fun h op _ ↦ h op⟩

/-- A text is divided at an operator if it is at its keyword, and the keywords of looser operators
are absent. -/
theorem divide?_eq_some {cs l r : List Char} {op : BinaryOperator}
    (h : splitAtWord? op.keyword.toList cs = some (l, r))
    (hlow : ∀ o : BinaryOperator, o.rank < op.rank → Absent o.keyword.toList {} cs []) :
    divide? cs = some (op, l, r) := by
  obtain ⟨before, after, hranked, hbefore⟩ := op.ranked_eq_append
  rw [divide?, List.findSome?_eq_some_iff]
  refine ⟨before, op, after, hranked, by rw [h]; rfl, fun o ho ↦ ?_⟩
  rw [Option.map_eq_none_iff, splitAtWord?, splitAtWordFrom?_eq_none_iff]
  exact hlow o (hbefore o ho)

/-- No keyword stands in the name of a function that a canonical expression calls. -/
theorem Canonical.not_isInfix_of_mem_callees {e : Expr} (h : Canonical e) {name : String}
    (hname : name ∈ e.callees) (op : BinaryOperator) : ¬ op.keyword.toList <:+: name.toList := by
  induction h with
  | negate _ ih => exact ih hname
  | binary _ _ _ _ _ ihl ihr => exact (List.mem_append.1 hname).elim ihl ihr
  | call _ _ hword _ _ _ =>
    rw [List.mem_singleton.1 hname]
    exact hword op
  | _ => exact absurd hname List.not_mem_nil

/-- The keyword of an operator is no part of an expression whose operators bind tighter. -/
theorem Canonical.foreign_keyword {e : Expr} (h : Canonical e) {op : BinaryOperator}
    (hop : ∀ o ∈ e.operators, op.rank < o.rank) : Foreign op.keyword.toList e :=
  ⟨fun o ho ↦ op.not_isInfix_of_rank_lt (hop o ho), fun _ hn ↦ h.not_isInfix_of_mem_callees hn op⟩

/-- A written expression without operators is not divided. -/
theorem Canonical.divide?_eq_none {e : Expr} (h : Canonical e) (hop : e.operators = []) :
    divide? e.write = none :=
  divide?_eq_none_iff.2 fun op ↦
    (h.absent_iff (isWord_keyword op)).2 (h.foreign_keyword (by simp [hop]))

/-- The text around the outermost operator. -/
theorem Canonical.divide?_binary {op : BinaryOperator} {l r : Expr} (hl : Canonical l)
    (h : Canonical (Expr.binary op l r)) (hleft : ∀ o ∈ l.operators, op.rank < o.rank)
    (hright : ∀ o ∈ r.operators, op.rank ≤ o.rank) :
    divide? (Expr.binary op l r).write = some (op, l.write ++ [' '], ' ' :: r.write) := by
  have hblank : ' ' ∉ op.keyword.toList := by cases op <;> decide
  refine divide?_eq_some ?_ fun o ho ↦ (h.absent_iff (isWord_keyword o)).2 (h.foreign_keyword ?_)
  · exact hl.splitAtWord?_spaced (isWord_keyword op) hblank (hl.foreign_keyword hleft) r.write
  · intro o' ho'
    rcases List.mem_append.1 ho' with ho' | ho'
    · exact Nat.lt_trans ho (hleft o' ho')
    · rcases List.mem_cons.1 ho' with rfl | ho'
      · exact ho
      · exact Nat.lt_of_lt_of_le ho (hright o' ho')

/-! ### Reading back -/

/-- Blanks around a text do not matter. -/
theorem ofChars_congr {cs cs' : List Char} (h : trim cs = trim cs') : ofChars cs = ofChars cs' := by
  rw [ofChars_eq, h, ← ofChars_eq]

/-- A right operand is read without the blank in front of it. -/
theorem Canonical.ofChars_cons_write {e : Expr} (h : Canonical e) :
    ofChars (' ' :: e.write) = ofChars e.write :=
  ofChars_congr (h.trim_cons_write.trans h.trim_write.symm)

/-- A left operand is read without the blank behind it. -/
theorem Canonical.ofChars_write_append {e : Expr} (h : Canonical e) :
    ofChars (e.write ++ [' ']) = ofChars e.write :=
  ofChars_congr (h.trim_write_append.trans h.trim_write.symm)

/-- Only a written opposite begins with the word for one. -/
theorem Canonical.after?_negateWord {e : Expr} (h : Canonical e) (hneg : e.isNegate = false) :
    after? negateWord.toList e.write = none := by
  rw [after?_eq_none_iff]
  rintro ⟨t, ht⟩
  refine h.head_ne hneg ?_
  rw [← ht]
  rfl

/-- A leaf is read as what it stands for. -/
theorem Canonical.ofChars_leaf {e e' : Expr} (h : Canonical e) (hneg : e.isNegate = false)
    (hop : e.operators = []) (hleaf : leaf? e.write = some e') : ofChars e.write = e' := by
  rw [ofChars_eq, h.trim_write, h.after?_negateWord hneg, h.divide?_eq_none hop, hleaf]

/-- A written expression is read back, with at least one place in every decimal. -/
theorem Canonical.ofChars_write {e : Expr} (h : Canonical e) : ofChars e.write = e.withPlaces := by
  induction h with
  | @negate e he ih =>
    have hafter : after? negateWord.toList (Expr.negate e).write = some (' ' :: e.write) :=
      after?_append negateWord.toList (' ' :: e.write)
    rw [ofChars_eq, (Canonical.negate he).trim_write, hafter]
    show Expr.negate (ofChars (' ' :: e.write)) = Expr.negate e.withPlaces
    rw [he.ofChars_cons_write, ih]
  | @binary op l r hl hr hleft hright hneg ihl ihr =>
    have he : Canonical (Expr.binary op l r) := .binary hl hr hleft hright hneg
    rw [ofChars_eq, he.trim_write, he.after?_negateWord rfl, divide?_binary hl he hleft hright]
    -- The division leaves each side the blank that stood next to the keyword.
    show Expr.binary op (ofChars (l.write ++ [' '])) (ofChars (' ' :: r.write)) = _
    rw [hl.ofChars_write_append, ihl, hr.ofChars_cons_write, ihr, withPlaces]
  | @var name hname =>
    refine ofChars_leaf (.var hname) rfl rfl ?_
    rw [write, leaf?_var, String.ofList_toList, withPlaces]
  | int n => exact ofChars_leaf (.int n) rfl rfl (leaf?_int n)
  | decimal hd => exact ofChars_leaf (.decimal hd) rfl rfl (leaf?_decimal hd)
  | @text s hs =>
    refine ofChars_leaf (.text hs) rfl rfl ?_
    rw [write, leaf?_text, String.ofList_toList, withPlaces]
  | bool b => exact ofChars_leaf (.bool b) rfl rfl (leaf?_bool b)
  | @call name args hne hname hword hargs hline ih =>
    have he : Canonical (Expr.call name args) := .call hne hname hword hargs hline
    have hparts : callParts? (Expr.call name args).write = some (name.toList, writeAll args) :=
      callParts?_written hne (fun h ↦ hname _ h (by decide)) (fun h ↦ hname _ h (by decide))
        (line_writeAll hline)
    have hread : arguments (writeAll args) = args.map withPlaces := by
      rw [arguments, splitAtCommas_writeAll hargs, List.map_map]
      exact List.map_congr_left ih
    rw [ofChars_eq, he.trim_write, he.after?_negateWord rfl, he.divide?_eq_none rfl, hparts]
    rw [show leaf? (Expr.call name args).write = none from leaf?_bracket _]
    show Expr.call (String.ofList name.toList) (arguments (writeAll args)) = _
    rw [hread, String.ofList_toList, withPlaces, withPlacesAll_eq_map]

/-- A canonical expression is read back from its text. What is read has a place in every decimal,
and it is the expression that was written when decimals are compared as numbers. -/
theorem ofString_render {e : Expr} (h : Canonical e) :
    ofString e.render = e.withPlaces ∧ e.withPlaces.Same e := by
  refine ⟨?_, same_withPlaces e⟩
  rw [ofString, render, String.toList_ofList]
  exact h.ofChars_write

/-- An expression with a comma and a keyword between quotes, an opposite that reaches to the end,
and a keyword that holds another. -/
def nested : Expr :=
  binary .join (call "f" [decimal ⟨15, 1⟩, text "1, 하악범", binary .subtract (int 1) (var "b")])
    (negate (binary .power (binary .add (var "a)") (decimal ⟨-5, 0⟩)) (bool true)))

/-- The nested expression is canonical. -/
theorem canonical_nested : Canonical nested := by
  have hword (op : BinaryOperator) : ¬ op.keyword.toList <:+: "f".toList := by
    cases op <;> decide
  refine .binary (.call (by decide) (by decide) hword ?_ ?_)
    (.negate (.binary (.binary (.var (by decide)) (.decimal (by decide)) ?_ ?_ rfl) (.bool true)
      ?_ ?_ rfl)) ?_ ?_ rfl
  · intro a ha
    simp only [List.mem_cons, List.not_mem_nil, or_false] at ha
    rcases ha with rfl | rfl | rfl
    · exact .decimal (by decide)
    · exact .text (by decide)
    · exact .binary (.int 1) (.var (by decide)) (by decide) (by decide) rfl
  · decide +kernel
  all_goals decide

theorem ofString_render_nested : Canonical nested ∧
    nested.render = "[f](1.5, \"1, 하악범\", 1 하악버엄 'b') 와구와구 " ++
      "반대로 'a)' 하악범 -5.0 비이만하악범 야오루폐" ∧
    ofString nested.render = nested.withPlaces ∧ nested.withPlaces.Same nested :=
  ⟨canonical_nested, by decide +kernel, ofString_render canonical_nested⟩

end Expr

end Haklang

import Haklang.Proofs.Value.Order
import Haklang.Proofs.Expr.Binding
import Haklang.Proofs.Action.Respects

/-!
# The greatest of several values

The greater of two values is taken again and again where a keyword stands between more than two
operands, and how the operands are grouped does not count. The answer is that of the whole sequence
(`Value.Answers`): the first value that no other one exceeds, or a type error if two of the values
cannot be compared. One step joins two sequences (`Value.Answers.append`), and this is where the
order has to be transitive: a value that is not exceeded on its own side is not exceeded on the
other either. Everything else is an induction along the grouping, be it a tree, a fold, or the
nesting to the right in which a text is read (`Expr.ofChars_between`).
-/

namespace Haklang

-- Statements on the members of a list are decided along the list, whatever other instances are in
-- sight.
attribute [local instance (high)] List.decidableBAll

namespace Value

/-! ### Sequences -/

/-- No value of the sequence exceeds the given one. -/
def Unexceeded (vs : List Value) (v : Value) : Prop := ∀ w ∈ vs, w.order v ≠ .ok .gt

/-- The first value of a sequence that no other one exceeds. -/
def IsGreatest (vs : List Value) (v : Value) : Prop :=
  ∃ us ws, vs = us ++ v :: ws ∧ Unexceeded vs v ∧ ∀ u ∈ us, ¬ Unexceeded vs u

/-- Any two values of the sequence can be compared. -/
def AllComparable (vs : List Value) : Prop := ∀ a ∈ vs, ∀ b ∈ vs, a.Comparable b

/-- The answer to the question for the greatest value of a sequence. -/
inductive Answers (vs : List Value) : Except Fault Value → Prop where
  /-- The first value that no other one exceeds, if they can all be compared. -/
  | greatest {v : Value} (hall : AllComparable vs) (hv : IsGreatest vs v) : Answers vs (.ok v)
  /-- A type error, if two of them cannot be compared. -/
  | typeError {e : Fault} (hnot : ¬ AllComparable vs) (he : e.category = .type) :
      Answers vs (.error e)

section Sequences

variable {vs ws : List Value} {a b u v w : Value} {o : Ordering} {r s : Except Fault Value}

theorem IsGreatest.mem (h : IsGreatest vs v) : v ∈ vs := by
  obtain ⟨us, ws, rfl, -, -⟩ := h
  exact List.mem_append_right us List.mem_cons_self

theorem IsGreatest.unexceeded (h : IsGreatest vs v) : Unexceeded vs v := by
  obtain ⟨us, ws, -, hv, -⟩ := h
  exact hv

/-- What does not exceed a value is at most that value. -/
theorem exists_isLE_of_unexceeded (hall : AllComparable vs) (hv : v ∈ vs) (h : Unexceeded vs v)
    (hw : w ∈ vs) : ∃ o, w.order v = .ok o ∧ o.isLE = true := by
  obtain ⟨o, ho⟩ := hall w hw v hv
  refine ⟨o, ho, ?_⟩
  rw [Ordering.isLE_iff_ne_gt]
  rintro rfl
  exact h w hw ho

theorem unexceeded_append :
    Unexceeded (vs ++ ws) v ↔ Unexceeded vs v ∧ Unexceeded ws v := by
  simp only [Unexceeded, List.mem_append, or_imp, forall_and]

/-- A sequence does not exceed what is at least its greatest value. -/
theorem unexceeded_of_order (hall : AllComparable vs) (hv : IsGreatest vs v)
    (h : v.order w = .ok o) (ho : o.isLE = true) : Unexceeded vs w := by
  intro u hu hgt
  obtain ⟨o', ho', hle⟩ := exists_isLE_of_unexceeded hall hv.mem hv.unexceeded hu
  rw [order_trans ho' h hle ho, Except.ok.injEq] at hgt
  have hthen : (o'.then o).isLE = true := Ordering.isLE_then_iff_and.2 ⟨hle, .inr ho⟩
  rw [hgt] at hthen
  cases hthen

/-- What exceeds the greatest value of a sequence exceeds all of it. -/
theorem order_eq_gt_of_mem (hall : AllComparable vs) (hv : IsGreatest vs v) (hu : u ∈ vs)
    (h : w.order v = .ok .gt) : w.order u = .ok .gt := by
  obtain ⟨o, ho, hle⟩ := exists_isLE_of_unexceeded hall hv.mem hv.unexceeded hu
  have hlt := order_trans ho (order_swap h) hle rfl
  have hthen : o.then .lt = .lt := by cases o <;> first | rfl | cases hle
  exact order_swap (hthen ▸ hlt)

/-- Two sequences can be compared throughout if each of them can, and one value of the one with one
value of the other. -/
theorem AllComparable.append (hvs : AllComparable vs) (hws : AllComparable ws) (ha : a ∈ vs)
    (hb : b ∈ ws) (h : b.Comparable a) : AllComparable (vs ++ ws) := by
  have hclass : ∀ c ∈ vs ++ ws, c.Comparable a := by
    intro c hc
    rcases List.mem_append.1 hc with hc | hc
    · exact hvs c hc a ha
    · exact equivalence_comparable.trans (hws c hc b hb) h
  intro c hc d hd
  exact equivalence_comparable.trans (hclass c hc) (equivalence_comparable.symm (hclass d hd))

theorem AllComparable.of_append (h : AllComparable (vs ++ ws)) :
    AllComparable vs ∧ AllComparable ws :=
  ⟨fun a ha b hb ↦ h a (List.mem_append_left ws ha) b (List.mem_append_left ws hb),
    fun a ha b hb ↦ h a (List.mem_append_right vs ha) b (List.mem_append_right vs hb)⟩

/-- The greatest value of the left sequence, if that of the right one does not exceed it. -/
theorem IsGreatest.append_left (hws : AllComparable ws) (ha : IsGreatest vs a)
    (hb : IsGreatest ws b) (h : b.order a = .ok o) (ho : o.isLE = true) :
    IsGreatest (vs ++ ws) a := by
  have hright : Unexceeded ws a := unexceeded_of_order hws hb h ho
  obtain ⟨before, after, hvs, hleft, hbefore⟩ := ha
  refine ⟨before, after ++ ws, by rw [hvs, List.append_assoc, List.cons_append],
    unexceeded_append.2 ⟨hleft, hright⟩, fun u hu hex ↦ ?_⟩
  exact hbefore u hu (unexceeded_append.1 hex).1

/-- The greatest value of the right sequence, if it exceeds that of the left one. -/
theorem IsGreatest.append_right (hvs : AllComparable vs) (ha : IsGreatest vs a)
    (hb : IsGreatest ws b) (h : b.order a = .ok .gt) : IsGreatest (vs ++ ws) b := by
  have hleft : Unexceeded vs b := unexceeded_of_order hvs ha (order_swap h) rfl
  have hmem := hb.mem
  obtain ⟨before, after, hws, hright, hbefore⟩ := hb
  refine ⟨vs ++ before, after, by rw [hws, List.append_assoc],
    unexceeded_append.2 ⟨hleft, hright⟩, fun u hu hex ↦ ?_⟩
  obtain ⟨-, hexright⟩ := unexceeded_append.1 hex
  rcases List.mem_append.1 hu with hu | hu
  · exact hexright b hmem (order_eq_gt_of_mem hvs ha hu h)
  · exact hbefore u hu hexright

/-- There is only one first value that no other one exceeds. -/
theorem IsGreatest.unique (hv : IsGreatest vs v) (hw : IsGreatest vs w) : v = w := by
  obtain ⟨us, rest, rfl, hv, hus⟩ := hv
  obtain ⟨us', rest', heq, hw, hus'⟩ := hw
  -- whichever of the two comes first is not exceeded, so it does not stand before the other
  obtain ⟨as, rfl, htail⟩ | ⟨as, rfl, htail⟩ := List.append_eq_append_iff.1 heq
  · cases as with
    | nil => exact (List.cons.inj htail).1
    | cons a as =>
      obtain ⟨rfl, -⟩ := List.cons.inj htail
      exact absurd hv (hus' v (List.mem_append_right us List.mem_cons_self))
  · cases as with
    | nil => exact (List.cons.inj htail).1.symm
    | cons a as =>
      obtain ⟨rfl, -⟩ := List.cons.inj htail
      exact absurd hw (hus w (List.mem_append_right us' List.mem_cons_self))

/-- Two answers are the same value, or both are errors. -/
theorem Answers.toOption_eq (hr : Answers vs r) (hs : Answers vs s) :
    r.toOption = s.toOption := by
  cases hr with
  | greatest hall hv => cases hs with
    | greatest _ hw => rw [hv.unique hw]
    | typeError hnot _ => exact absurd hall hnot
  | typeError hnot _ => cases hs with
    | greatest hall _ => exact absurd hall hnot
    | typeError _ _ => rfl

/-- One value is the greatest of itself. -/
theorem answers_singleton (v : Value) : Answers [v] (.ok v) := by
  refine .greatest (fun a ha b hb ↦ ?_) ⟨[], [], rfl, fun w hw ↦ ?_, fun u hu ↦ ?_⟩
  · rw [List.mem_singleton.1 ha, List.mem_singleton.1 hb]
    exact equivalence_comparable.refl v
  · rw [List.mem_singleton.1 hw, order_self]
    exact nofun
  · cases hu

/-- The answer for two sequences, one after the other, is the greater one of the two answers. -/
theorem Answers.append (hr : Answers vs r) (hs : Answers ws s) :
    Answers (vs ++ ws) (r >>= fun a ↦ s >>= fun b ↦ BinaryOperator.max.apply a b) := by
  cases hr with
  | typeError hnot he => exact .typeError (fun hall ↦ hnot hall.of_append.1) he
  | @greatest a hvs ha =>
    cases hs with
    | typeError hnot he => exact .typeError (fun hall ↦ hnot hall.of_append.2) he
    | @greatest b hws hb =>
      show Answers (vs ++ ws) ((b.order a).map fun o ↦ if o = .gt then b else a)
      by_cases h : b.Comparable a
      · have hall := hvs.append hws ha.mem hb.mem h
        obtain ⟨o, ho⟩ := h
        rw [ho]
        show Answers (vs ++ ws) (.ok (if o = .gt then b else a))
        split
        case isTrue hgt => exact .greatest hall (ha.append_right hvs hb (hgt ▸ ho))
        case isFalse hle =>
          exact .greatest hall (ha.append_left hws hb ho (Ordering.isLE_iff_ne_gt.2 hle))
      · rw [order_of_not_comparable h]
        exact .typeError (fun hall ↦ h (hall b (List.mem_append_right vs hb.mem) a
          (List.mem_append_left ws ha.mem))) rfl

end Sequences

/-! ### Groupings -/

/-- A way to put a sequence of values in parentheses. -/
inductive Grouping where
  /-- One value. -/
  | value (v : Value)
  /-- Two parts of the sequence. -/
  | pair (left right : Grouping)

namespace Grouping

/-- The values from left to right. -/
def values : Grouping → List Value
  | value v => [v]
  | pair l r => l.values ++ r.values

/-- The greatest value as it is computed, the greater one of each pair in turn. -/
def max : Grouping → Except Fault Value
  | value v => .ok v
  | pair l r => do
    let a ← l.max
    let b ← r.max
    BinaryOperator.max.apply a b

theorem answers_max (t : Grouping) : Answers t.values t.max := by
  induction t with
  | value v => exact answers_singleton v
  | pair l r ihl ihr => exact ihl.append ihr

end Grouping

/-- One value after the other is compared with the greatest one so far. -/
theorem Answers.foldlM {us : List Value} {v : Value} (h : Answers us (.ok v)) (vs : List Value) :
    Answers (us ++ vs) (vs.foldlM BinaryOperator.max.apply v) := by
  induction vs generalizing us v with
  | nil => rwa [List.append_nil]
  | cons w vs ih =>
    have hstep : Answers (us ++ [w]) (BinaryOperator.max.apply v w) :=
      h.append (answers_singleton w)
    rw [List.foldlM_cons, List.append_cons]
    cases hw : BinaryOperator.max.apply v w with
    | ok u => exact ih (hw ▸ hstep)
    | error e =>
      rw [hw] at hstep
      cases hstep with
      | typeError hnot he => exact .typeError (fun hall ↦ hnot hall.of_append.1) he

end Value

/-! ### Texts of several operands -/

namespace Expr

open Text Nesting

section Reading

variable {op : BinaryOperator} {p q t : List Char}

/-- A text that is the right side of an operator as it stands: no operator that binds looser stands
in it. -/
structure IsRightOperand (op : BinaryOperator) (q : List Char) : Prop where
  /-- It is not empty. -/
  ne_nil : q ≠ []
  /-- It neither begins nor ends with a blank. -/
  tight : Tight q
  /-- A looser keyword stands in quotes or parentheses only. -/
  absent : ∀ o : BinaryOperator, o.rank < op.rank → Absent o.keyword.toList {} q []

/-- A text that is the left side of an operator as it stands: it is no opposite, its quotes and
parentheses are closed, and the operator itself does not stand in it either. -/
structure IsLeftOperand (op : BinaryOperator) (p : List Char) : Prop where
  /-- It is not empty. -/
  ne_nil : p ≠ []
  /-- It neither begins nor ends with a blank. -/
  tight : Tight p
  /-- What follows it stands outside quotes and parentheses. -/
  closed : ({} : Nesting).after .round p = {}
  /-- The keyword and looser ones stand in quotes or parentheses only. -/
  absent : ∀ o : BinaryOperator, o.rank ≤ op.rank → Absent o.keyword.toList {} p []
  /-- It does not begin with the negation keyword. -/
  plain : after? negateWord.toList p = none

theorem blank_not_mem_keyword (o : BinaryOperator) : ' ' ∉ o.keyword.toList := fun h ↦ by
  have hblank := isBlank_of_mem_keyword h
  cases hblank

/-- A keyword that is absent from an operand is absent from it where a blank follows. -/
theorem absent_before_blank {o : BinaryOperator} (h : Absent o.keyword.toList {} p [])
    (rest : List Char) : Absent o.keyword.toList {} p (' ' :: rest) := by
  refine h.of_bounded (.inr fun c hc ↦ ?_)
  obtain rfl : ' ' = c := by simpa using hc
  exact blank_not_mem_keyword o

/-- Two operands around an operator are a right operand of it again. -/
theorem IsLeftOperand.isRightOperand (hp : IsLeftOperand op p) (ht : IsRightOperand op t) :
    IsRightOperand op (p ++ (op.infixed ++ t)) where
  ne_nil := List.append_ne_nil_of_left_ne_nil hp.ne_nil _
  tight := hp.tight.append_append hp.ne_nil op.infixed ht.tight ht.ne_nil
  absent o ho := by
    have hinfixed : Absent o.keyword.toList {} op.infixed (t ++ []) := by
      refine .of_bounded (.of_not_isInfix (BinaryOperator.not_isInfix_of_rank_lt ho)) (.inl ?_)
      intro c hc
      obtain rfl : ' ' = c := by
        rwa [BinaryOperator.infixed, spaced, ← List.cons_append, List.getLast?_concat,
          Option.mem_def, Option.some.injEq] at hc
      exact blank_not_mem_keyword o
    have hafter : ({} : Nesting).after .round op.infixed = {} := (isWord_keyword op).after_spaced
    rw [absent_append, absent_append, hp.closed, hafter]
    exact ⟨absent_before_blank (hp.absent o (Nat.le_of_lt ho)) _, hinfixed, ht.absent o ho⟩

/-- An operator between two operands is read as it stands. -/
theorem IsLeftOperand.ofChars_infixed (hp : IsLeftOperand op p) (ht : IsRightOperand op t) :
    ofChars (p ++ (op.infixed ++ t)) = binary op (ofChars p) (ofChars t) := by
  have hwhole := hp.isRightOperand ht
  have hneg : after? negateWord.toList (p ++ (op.infixed ++ t)) = none := by
    refine after?_eq_none_iff.2 fun hw ↦ after?_eq_none_iff.1 hp.plain ?_
    refine prefix_of_prefix_append hw (.inr fun c hc ↦ ?_) hp.ne_nil
    obtain rfl : ' ' = c := by simpa [BinaryOperator.infixed, spaced] using hc
    decide
  have hsplit : splitAtWord? op.keyword.toList (p ++ (op.infixed ++ t)) =
      some (p ++ [' '], ' ' :: t) := by
    have habsent : Absent op.keyword.toList {} (p ++ [' ']) (op.keyword.toList ++ ' ' :: t) := by
      refine absent_append.2 ⟨absent_before_blank (hp.absent op (Nat.le_refl _)) _, ?_⟩
      exact .of_forall_not_mem op.keyword_ne_nil (by simpa using blank_not_mem_keyword op)
    have hclosed : ({} : Nesting).after .round (p ++ [' ']) = {} := by
      rw [after_append, hp.closed]
      rfl
    have htext : p ++ (op.infixed ++ t) = p ++ [' '] ++ (op.keyword.toList ++ ' ' :: t) := by
      simp [BinaryOperator.infixed, spaced]
    rw [htext]
    exact splitAtWord?_of_absent op.keyword_ne_nil habsent hclosed
  have hleft : trim (p ++ [' ']) = trim p := by
    rw [trim_of_tight hp.ne_nil hp.tight]
    exact trim_append_append (l := []) hp.ne_nil hp.tight (by simp) (by decide)
  have hright : trim (' ' :: t) = trim t := by
    rw [trim_of_tight ht.ne_nil ht.tight]
    simpa using trim_append_append (l := [' ']) (r := []) ht.ne_nil ht.tight (by decide) (by simp)
  rw [ofChars_eq, trim_of_tight hwhole.ne_nil hwhole.tight, hneg,
    divide?_eq_some hsplit hwhole.absent, ← ofChars_congr hleft, ← ofChars_congr hright]

/-- Operands with an operator between each two of them. -/
def between (op : BinaryOperator) (ps : List (List Char)) (q : List Char) : List Char :=
  ps.foldr (fun p t ↦ p ++ (op.infixed ++ t)) q

/-- A text of operands is read as nested to the right, and it is a right operand itself. -/
theorem ofChars_between {ps : List (List Char)} (hps : ∀ p ∈ ps, IsLeftOperand op p)
    (hq : IsRightOperand op q) :
    IsRightOperand op (between op ps q) ∧
      ofChars (between op ps q) = (ps.map ofChars).foldr (binary op) (ofChars q) := by
  induction ps with
  | nil => exact ⟨hq, rfl⟩
  | cons p ps ih =>
    have hp := hps p List.mem_cons_self
    obtain ⟨hrest, hread⟩ := ih fun p' hp' ↦ hps p' (List.mem_cons_of_mem p hp')
    exact ⟨hp.isRightOperand hrest, (hp.ofChars_infixed hrest).trans (congrArg _ hread)⟩

/-- A canonical expression is a left operand as it is written, if it is no opposite and all its
operators bind tighter. -/
theorem Canonical.isLeftOperand {e : Expr} (h : Canonical e) (hneg : e.isNegate = false)
    (hop : ∀ o ∈ e.operators, op.rank < o.rank) : IsLeftOperand op e.write where
  ne_nil := h.marked.ne_nil
  tight := h.marked.tight
  closed := h.after_write (.inl rfl)
  absent o ho := (h.absent_iff (isWord_keyword o)).2
    (h.foreign_keyword fun o' ho' ↦ Nat.lt_of_le_of_lt ho (hop o' ho'))
  plain := h.after?_negateWord hneg

/-- A canonical expression is a right operand as it is written, if none of its operators binds
looser. -/
theorem Canonical.isRightOperand {e : Expr} (h : Canonical e)
    (hop : ∀ o ∈ e.operators, op.rank ≤ o.rank) : IsRightOperand op e.write where
  ne_nil := h.marked.ne_nil
  tight := h.marked.tight
  absent o ho := (h.absent_iff (isWord_keyword o)).2
    (h.foreign_keyword fun o' ho' ↦ Nat.lt_of_lt_of_le ho (hop o' ho'))

end Reading

/-! ### Values of several operands -/

section Values

variable {call : Callee} {e : Expr} {es : List Expr} {m m' : Machine} {vs : List Value}

theorem evalAll_cons_eq_ok_iff : evalAll call (e :: es) m = .ok vs m' ↔
    ∃ v m₁ ws, e.eval call m = .ok v m₁ ∧ evalAll call es m₁ = .ok ws m' ∧ vs = v :: ws := by
  rw [evalAll, Action.bind_eq_ok_iff]
  refine exists_congr fun v ↦ exists_congr fun m₁ ↦ ?_
  rw [Action.bind_eq_ok_iff]
  constructor
  · rintro ⟨hv, ws, m₂, hws, h⟩
    cases h
    exact ⟨ws, hv, hws, rfl⟩
  · rintro ⟨ws, hv, hws, rfl⟩
    exact ⟨hv, ws, m', hws, rfl⟩

/-- Expressions that are nested to the right evaluate to the answer for their values. -/
theorem answers_eval (h : evalAll call (es ++ [e]) m = .ok vs m') :
    ∃ r, Value.Answers vs r ∧ (es.foldr (binary .max) e).eval call m = Action.ofExcept r m' := by
  induction es generalizing m vs with
  | nil =>
    obtain ⟨v, m₁, ws, hv, hws, rfl⟩ := evalAll_cons_eq_ok_iff.1 h
    cases hws
    exact ⟨.ok v, Value.answers_singleton v, hv⟩
  | cons e' es ih =>
    obtain ⟨v, m₁, ws, hv, hws, rfl⟩ := evalAll_cons_eq_ok_iff.1 h
    obtain ⟨r, hr, heval⟩ := ih hws
    refine ⟨_, (Value.answers_singleton v).append hr, ?_⟩
    rw [List.foldr_cons, eval, Action.bind_of_ok hv]
    cases r with
    | ok b => exact Action.bind_of_ok heval _
    | error f => exact Action.bind_of_error heval _

end Values

/-- Which value is the greatest of several does not depend on how they are grouped: whatever the
grouping, it is the first one that no other exceeds, unless two of them cannot be compared, which is
a type error. So it is with the values compared one after the other, and with the operands of a
text, which nest to the right. -/
theorem answers_of_grouping :
    (∀ vs r r', Value.Answers vs r → Value.Answers vs r' → r.toOption = r'.toOption) ∧
    (∀ t : Value.Grouping, Value.Answers t.values t.max) ∧
    (∀ v vs, Value.Answers (v :: vs) (vs.foldlM BinaryOperator.max.apply v)) ∧
    ∀ ps q, (∀ p ∈ ps, IsLeftOperand .max p) → IsRightOperand .max q →
      ofString (.ofList (between .max ps q)) = (ps.map ofChars).foldr (binary .max) (ofChars q) ∧
      ∀ call m m' vs, evalAll call (ps.map ofChars ++ [ofChars q]) m = .ok vs m' →
        ∃ r, Value.Answers vs r ∧
          (ofString (.ofList (between .max ps q))).eval call m = Action.ofExcept r m' := by
  refine ⟨fun vs r r' ↦ Value.Answers.toOption_eq, Value.Grouping.answers_max,
    fun v vs ↦ (Value.answers_singleton v).foldlM vs, fun ps q hps hq ↦ ?_⟩
  have hread : ofString (.ofList (between .max ps q)) =
      (ps.map ofChars).foldr (binary .max) (ofChars q) := by
    rw [ofString, String.toList_ofList]
    exact (ofChars_between hps hq).2
  refine ⟨hread, fun call m m' vs h ↦ ?_⟩
  rw [hread]
  exact answers_eval h

/-- One as an integer, as a decimal and as a truth value, in this order. -/
theorem answers_of_grouping_ties :
    let left : Value.Grouping :=
      .pair (.pair (.value (.int 1)) (.value (.decimal .seven ⟨10, 1⟩))) (.value (.bool true))
    left.max = .ok (.int 1) ∧ ∀ call m,
      (ofString "1 더큰거 1.0 더큰거 야오루폐").eval call m = .ok (.int 1) m := by
  intro left
  obtain ⟨hunique, hgrouped, -, hread⟩ := answers_of_grouping
  have hleft : left.max = .ok (.int 1) := by decide
  refine ⟨hleft, fun call m ↦ ?_⟩
  have hone : Canonical (.int 1) := .int 1
  have hdecimal : Canonical (.decimal ⟨10, 1⟩) := .decimal (by decide)
  have htrue : Canonical (.bool true) := .bool true
  obtain ⟨-, heval⟩ := hread [(Expr.int 1).write, (Expr.decimal ⟨10, 1⟩).write]
    (Expr.bool true).write (by
      simpa using ⟨hone.isLeftOperand rfl nofun, hdecimal.isLeftOperand rfl nofun⟩)
    (htrue.isRightOperand nofun)
  have hvalues : evalAll call ([(Expr.int 1).write, (Expr.decimal ⟨10, 1⟩).write].map ofChars ++
      [ofChars (Expr.bool true).write]) m = .ok left.values m := by
    rw [List.map_cons, List.map_singleton, hone.ofChars_write, hdecimal.ofChars_write,
      htrue.ofChars_write]
    rfl
  obtain ⟨r, hr, htext⟩ := heval call m m left.values hvalues
  have hr' := hunique _ _ _ (hgrouped left) hr
  rw [hleft] at hr'
  cases r with
  | ok v => rwa [← Option.some.inj hr'] at htext
  | error e => cases hr'

end Expr

end Haklang

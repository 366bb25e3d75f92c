import Haklang.Proofs.Value.Arithmetic

/-!
# Which values compare, and how

A value is compared by a number, by a text, or by a list of integers, of numbers or of texts
(`Value.comparand`). Two values can be compared if these are of one kind, and then they are in the
order that numbers, texts and lists have of their own (`Value.order_eq_ok_iff`). So the type of a
number does not count, nor do the places with which it is written, nor the precision of the decimals
in a list.

Each of these five orders is linear, and what holds in a linear order holds of comparison by one
case for each kind: it is reversed when the two change places (`Comparand.Compares.swap`), and a
second step may follow a first one (`Comparand.Compares.trans`). Equality and the relations of
conditions only look at the outcome, so they agree with each other (`Value.Relates`,
`Value.compare_consistent`).
-/

namespace Haklang

/-! ### Orders -/

section Order

variable {α β : Type}

/-- In an order, what is not above something that is not above a third is compared with the third as
the two steps say. -/
theorem compare_eq_then [Ord α] [Std.TransOrd α] {x y z : α} (hxy : (compare x y).isLE = true)
    (hyz : (compare y z).isLE = true) : compare x z = (compare x y).then (compare y z) := by
  rcases ho : compare x y with - | - | -
  · exact Std.TransCmp.lt_of_lt_of_isLE ho hyz
  · exact Std.TransCmp.congr_left ho
  · rw [ho] at hxy
    cases hxy

/-- Lists are compared item by item as the lists of what the items are compared by. -/
theorem compareLex_eq_compare [Ord β] {f : α → α → Ordering} {g : α → β}
    (h : ∀ a b, f a b = compare (g a) (g b)) (xs ys : List α) :
    List.compareLex f xs ys = compare (xs.map g) (ys.map g) := by
  induction xs generalizing ys with
  | nil => cases ys <;> rfl
  | cons a xs ih =>
    cases ys with
    | nil => rfl
    | cons b ys =>
      rw [List.compareLex_cons_cons, h, ih, List.map_cons, List.map_cons, List.compare_cons_cons]

end Order

/-! ### What values are compared by -/

/-- The kinds of values that can be compared with each other. -/
inductive ComparisonClass where
  /-- Integers, decimals and truth values. -/
  | numbers
  /-- Texts. -/
  | texts
  /-- Lists of integers. -/
  | integerLists
  /-- Lists of decimals of either precision. -/
  | decimalLists
  /-- Lists of texts. -/
  | textLists
deriving DecidableEq

/-- What a value is compared by. -/
inductive Comparand where
  /-- The number that it is. -/
  | number (q : ℚ)
  /-- A text. -/
  | text (s : String)
  /-- The integers of a list. -/
  | integers (ns : List Int)
  /-- The numbers of a list of decimals. -/
  | decimals (qs : List ℚ)
  /-- The texts of a list. -/
  | texts (ss : List String)

/-- What a value is compared by. -/
def Value.comparand : Value → Comparand
  | int n => .number n.val
  | bool b => .number (Integer.ofBool b).val
  | decimal _ d => .number d.toRat
  | text s => .text s
  | list (.ints xs) => .integers (xs.map Integer.val)
  | list (.decimals _ xs) => .decimals (xs.map Decimal.toRat)
  | list (.texts xs) => .texts xs

namespace Comparand

/-- The class of what is compared by it. -/
def comparisonClass : Comparand → ComparisonClass
  | number _ => .numbers
  | text _ => .texts
  | integers _ => .integerLists
  | decimals _ => .decimalLists
  | texts _ => .textLists

/-- How two of them compare: numbers by value, texts by code points, lists item by item and then by
length. -/
inductive Compares : Comparand → Comparand → Ordering → Prop where
  /-- Numbers. -/
  | numbers (x y : ℚ) : Compares (number x) (number y) (compare x y)
  /-- Texts. -/
  | texts (s t : String) : Compares (text s) (text t) (compare s t)
  /-- Lists of integers. -/
  | integerLists (ms ns : List Int) : Compares (integers ms) (integers ns) (compare ms ns)
  /-- Lists of decimals. -/
  | decimalLists (ps qs : List ℚ) : Compares (decimals ps) (decimals qs) (compare ps qs)
  /-- Lists of texts. -/
  | textLists (ss ts : List String) : Compares (texts ss) (texts ts) (compare ss ts)

variable {a b c : Comparand} {o o' : Ordering}

/-- Those of one class can be compared, and no others. -/
theorem exists_compares_iff : (∃ o, Compares a b o) ↔ a.comparisonClass = b.comparisonClass := by
  constructor
  · rintro ⟨o, h⟩
    cases h <;> rfl
  · intro h
    cases a with
    | number x => cases b with
      | number y => exact ⟨_, .numbers x y⟩
      | _ => cases h
    | text s => cases b with
      | text t => exact ⟨_, .texts s t⟩
      | _ => cases h
    | integers ms => cases b with
      | integers ns => exact ⟨_, .integerLists ms ns⟩
      | _ => cases h
    | decimals ps => cases b with
      | decimals qs => exact ⟨_, .decimalLists ps qs⟩
      | _ => cases h
    | texts ss => cases b with
      | texts ts => exact ⟨_, .textLists ss ts⟩
      | _ => cases h

/-- Everything compares equal with itself. -/
theorem Compares.refl (a : Comparand) : Compares a a .eq := by
  cases a with
  | number x => exact Std.ReflOrd.compare_self (a := x) ▸ .numbers x x
  | text s => exact Std.ReflOrd.compare_self (a := s) ▸ .texts s s
  | integers ms => exact Std.ReflOrd.compare_self (a := ms) ▸ .integerLists ms ms
  | decimals ps => exact Std.ReflOrd.compare_self (a := ps) ▸ .decimalLists ps ps
  | texts ss => exact Std.ReflOrd.compare_self (a := ss) ▸ .textLists ss ss

/-- The other way round the order is reversed. -/
theorem Compares.swap (h : Compares a b o) : Compares b a o.swap := by
  cases h with
  | numbers x y => exact Std.OrientedOrd.eq_swap (a := y) (b := x) ▸ .numbers y x
  | texts s t => exact Std.OrientedOrd.eq_swap (a := t) (b := s) ▸ .texts t s
  | integerLists ms ns => exact Std.OrientedOrd.eq_swap (a := ns) (b := ms) ▸ .integerLists ns ms
  | decimalLists ps qs => exact Std.OrientedOrd.eq_swap (a := qs) (b := ps) ▸ .decimalLists qs ps
  | textLists ss ts => exact Std.OrientedOrd.eq_swap (a := ts) (b := ss) ▸ .textLists ts ss

/-- One step after the other. -/
theorem Compares.trans (h : Compares a b o) (h' : Compares b c o') (ho : o.isLE = true)
    (ho' : o'.isLE = true) : Compares a c (o.then o') := by
  cases h with
  | numbers x y => cases h' with
    | numbers _ z => exact compare_eq_then ho ho' ▸ .numbers x z
  | texts s t => cases h' with
    | texts _ u => exact compare_eq_then ho ho' ▸ .texts s u
  | integerLists ms ns => cases h' with
    | integerLists _ ks => exact compare_eq_then ho ho' ▸ .integerLists ms ks
  | decimalLists ps qs => cases h' with
    | decimalLists _ rs => exact compare_eq_then ho ho' ▸ .decimalLists ps rs
  | textLists ss ts => cases h' with
    | textLists _ us => exact compare_eq_then ho ho' ▸ .textLists ss us

end Comparand

/-! ### Comparison of values -/

/-- Of the relations that are not negations of others, one and only one holds for an outcome. -/
theorem Relation.existsUnique_holdsFor (o : Ordering) :
    ∃! r, r ∈ [Relation.lt, .eq, .gt] ∧ r.holdsFor o = true := by
  have hexists : ∃ r ∈ [Relation.lt, .eq, .gt], r.holdsFor o = true := by cases o <;> decide
  have hunique : ∀ r ∈ [Relation.lt, .eq, .gt], ∀ r' ∈ [Relation.lt, .eq, .gt],
      r.holdsFor o = true → r'.holdsFor o = true → r = r' := by
    cases o <;> decide
  obtain ⟨r, hr, ho⟩ := hexists
  exact ⟨r, ⟨hr, ho⟩, fun r' h' ↦ hunique r' h'.1 r hr h'.2 ho⟩

namespace Value

open Comparand

/-- The class of a value. -/
def comparisonClass (v : Value) : ComparisonClass := v.comparand.comparisonClass

variable {a b c v : Value} {o o' : Ordering}

/-- Numbers, and no other values, are compared by what number they are. -/
theorem comparand_eq_number_iff {x : ℚ} : v.comparand = .number x ↔ v.rat? = some x := by
  rcases v with n | ⟨p, d⟩ | s | (xs | ⟨p, xs⟩ | xs) | b <;> simp [comparand, rat?, number?]

/-- Text is compared as it is. -/
theorem comparand_eq_text_iff {s : String} : v.comparand = .text s ↔ v = .text s := by
  rcases v with n | ⟨p, d⟩ | s | (xs | ⟨p, xs⟩ | xs) | b <;> simp [comparand]

/-- A list of integers is compared by its integers. -/
theorem comparand_eq_integers_iff {ns : List Int} :
    v.comparand = .integers ns ↔ ∃ xs, v = .list (.ints xs) ∧ xs.map Integer.val = ns := by
  rcases v with n | ⟨p, d⟩ | s | (xs | ⟨p, xs⟩ | xs) | b <;> simp [comparand]

/-- A list of decimals is compared by the numbers that they are, whatever their places. -/
theorem comparand_eq_decimals_iff {qs : List ℚ} :
    v.comparand = .decimals qs ↔
      ∃ p xs, v = .list (.decimals p xs) ∧ xs.map Decimal.toRat = qs := by
  rcases v with n | ⟨p, d⟩ | s | (xs | ⟨p, xs⟩ | xs) | b <;> simp [comparand]

/-- A list of texts is compared as it is. -/
theorem comparand_eq_texts_iff {ss : List String} :
    v.comparand = .texts ss ↔ v = .list (.texts ss) := by
  rcases v with n | ⟨p, d⟩ | s | (xs | ⟨p, xs⟩ | xs) | b <;> simp [comparand]

/-- Values compare as what they are compared by. -/
theorem compare?_of_compares (h : Compares a.comparand b.comparand o) : a.compare? b = some o := by
  generalize ha : a.comparand = u, hb : b.comparand = w at h
  cases h with
  | numbers x y =>
    rw [compare?_eq (comparand_eq_number_iff.1 ha) (comparand_eq_number_iff.1 hb), cmp_eq_compare]
  | texts s t =>
    rw [comparand_eq_text_iff.1 ha, comparand_eq_text_iff.1 hb]
    rfl
  | integerLists ms ns =>
    obtain ⟨xs, rfl, rfl⟩ := comparand_eq_integers_iff.1 ha
    obtain ⟨ys, rfl, rfl⟩ := comparand_eq_integers_iff.1 hb
    exact congrArg some (compareLex_eq_compare (fun _ _ ↦ rfl) xs ys)
  | decimalLists ps qs =>
    obtain ⟨p, xs, rfl, rfl⟩ := comparand_eq_decimals_iff.1 ha
    obtain ⟨q, ys, rfl, rfl⟩ := comparand_eq_decimals_iff.1 hb
    have hitems (c d : Decimal) : c.compare d = compare c.toRat d.toRat := by
      rw [Decimal.compare_eq, cmp_eq_compare]
    exact congrArg some (compareLex_eq_compare hitems xs ys)
  | textLists ss ts =>
    rw [comparand_eq_texts_iff.1 ha, comparand_eq_texts_iff.1 hb]
    rfl

/-- All numbers, truth values included, are of one class. -/
theorem comparisonClass_of_number? {d : Decimal} (h : v.number? = some d) :
    v.comparisonClass = .numbers := by
  have hrat : v.rat? = some d.toRat := by rw [rat?, h, Option.map_some]
  rw [comparisonClass, comparand_eq_number_iff.2 hrat, Comparand.comparisonClass]

/-- Values of different classes do not compare. -/
theorem comparisonClass_eq_of_compare? (h : a.compare? b = some o) :
    a.comparisonClass = b.comparisonClass := by
  unfold compare? at h
  split at h
  case h_1 s t => rfl
  case h_2 xs ys =>
    cases xs with
    | ints xs => cases ys with
      | ints ys => rfl
      | _ => cases h
    | decimals p xs => cases ys with
      | decimals q ys => rfl
      | _ => cases h
    | texts xs => cases ys with
      | texts ys => rfl
      | _ => cases h
  case h_3 =>
    split at h
    case h_1 c d hc hd => rw [comparisonClass_of_number? hc, comparisonClass_of_number? hd]
    case h_2 => cases h

/-- Two values compare exactly as what they are compared by. -/
theorem compare?_eq_some_iff :
    a.compare? b = some o ↔ Compares a.comparand b.comparand o := by
  refine ⟨fun h ↦ ?_, compare?_of_compares⟩
  obtain ⟨o', h'⟩ := exists_compares_iff.2 (comparisonClass_eq_of_compare? h)
  rwa [Option.some.inj (h.symm.trans (compare?_of_compares h'))]

/-- The order of two values is that of what they are compared by. -/
theorem order_eq_ok_iff : a.order b = .ok o ↔ Compares a.comparand b.comparand o := by
  rw [← compare?_eq_some_iff, order]
  cases a.compare? b <;> simp

/-- The two values can be compared. -/
def Comparable (a b : Value) : Prop := ∃ o, a.order b = .ok o

/-- Two values can be compared exactly if they are of one class. -/
theorem comparable_iff : a.Comparable b ↔ a.comparisonClass = b.comparisonClass := by
  simp only [Comparable, order_eq_ok_iff]
  exact exists_compares_iff

/-- Comparing fails for no other reason than that the two cannot be compared. -/
theorem order_of_not_comparable (h : ¬ a.Comparable b) :
    a.order b = .error (.operands .compare a.kind b.kind) := by
  rw [order]
  split
  case h_1 o ho => exact absurd ⟨o, by rw [order, ho]⟩ h
  case h_2 => rfl

/-- To be comparable is an equivalence, since to be of one class is. -/
theorem equivalence_comparable : Equivalence Comparable := by
  exact ⟨fun _ ↦ comparable_iff.2 rfl, fun h ↦ comparable_iff.2 (comparable_iff.1 h).symm,
    fun h h' ↦ comparable_iff.2 ((comparable_iff.1 h).trans (comparable_iff.1 h'))⟩

theorem order_self (a : Value) : a.order a = .ok .eq := order_eq_ok_iff.2 (.refl a.comparand)

/-- The order is reversed when two values change places. -/
theorem order_swap (h : a.order b = .ok o) : b.order a = .ok o.swap :=
  order_eq_ok_iff.2 (order_eq_ok_iff.1 h).swap

/-- The order is transitive, and strict as soon as one of the two steps is. -/
theorem order_trans (h : a.order b = .ok o) (h' : b.order c = .ok o') (ho : o.isLE = true)
    (ho' : o'.isLE = true) : a.order c = .ok (o.then o') :=
  order_eq_ok_iff.2 ((order_eq_ok_iff.1 h).trans (order_eq_ok_iff.1 h') ho ho')

/-- Values are equal exactly if they compare as equal. -/
theorem equals_iff : a.equals b = true ↔ a.order b = .ok .eq := by
  rw [equals, beq_iff_eq, compare?_eq_some_iff, order_eq_ok_iff]

/-- Equality is an equivalence, since the order is reflexive, reversible and transitive. -/
theorem equivalence_equals : Equivalence fun a b : Value ↦ a.equals b = true := by
  simp only [equals_iff]
  exact ⟨order_self, order_swap, fun h h' ↦ order_trans h h' rfl rfl⟩

/-! ### Relations -/

/-- The relations between two values of which the first compares with the second as `o`. -/
structure Relates (a b : Value) (o : Ordering) : Prop where
  /-- Less than. -/
  lt : relate .lt a b = .ok (decide (o = .lt))
  /-- Equal. -/
  eq : relate .eq a b = .ok (decide (o = .eq))
  /-- Greater than. -/
  gt : relate .gt a b = .ok (decide (o = .gt))
  /-- One of the three holds, and no other. -/
  trichotomy : ∃! r, r ∈ [Relation.lt, .eq, .gt] ∧ relate r a b = .ok true
  /-- At most is the negation of greater than. -/
  le_eq_not_gt : relate .le a b = (relate .gt a b).map not
  /-- At least is the negation of less than. -/
  ge_eq_not_lt : relate .ge a b = (relate .lt a b).map not
  /-- The one is at most the other exactly if the other is at least the one. -/
  le_eq_ge : relate .le a b = relate .ge b a

/-- Between values that can be compared a relation holds if it allows for how they compare. -/
theorem relate_of_order (h : a.order b = .ok o) (r : Relation) :
    relate r a b = .ok (r.holdsFor o) := by
  rw [relate]
  split
  case isTrue hr =>
    have hcompare : a.compare? b = some o := compare?_eq_some_iff.2 (order_eq_ok_iff.1 h)
    rw [hr, equals, hcompare]
    rfl
  case isFalse => rw [h]; rfl

/-- All the relations between two values follow from how they compare. -/
theorem relates (h : a.order b = .ok o) : Relates a b o where
  lt := relate_of_order h .lt
  eq := relate_of_order h .eq
  gt := relate_of_order h .gt
  trichotomy := by
    simp only [relate_of_order h, Except.ok.injEq]
    exact Relation.existsUnique_holdsFor o
  le_eq_not_gt := by
    rw [relate_of_order h, relate_of_order h]
    cases o <;> rfl
  ge_eq_not_lt := by
    rw [relate_of_order h, relate_of_order h]
    cases o <;> rfl
  le_eq_ge := by
    rw [relate_of_order h, relate_of_order (order_swap h)]
    cases o <;> rfl

/-- Comparison is a consistent preorder. Two values can be compared exactly if they are of one
class, and they are in the order of what they are compared by; the order is reversed when the two
change places, and it is transitive. Equality is an equivalence of all values and never fails.
Between values that can be compared the relations are those that the order says; between values that
cannot, equality does not hold and the four others are type errors. -/
theorem compare_consistent :
    (∀ a b : Value, a.Comparable b ↔ a.comparisonClass = b.comparisonClass) ∧
    Equivalence Comparable ∧
    (∀ a b : Value, ∀ o, a.order b = .ok o ↔ Compares a.comparand b.comparand o) ∧
    (∀ a b : Value, ∀ o, a.order b = .ok o → b.order a = .ok o.swap) ∧
    (∀ a b c : Value, ∀ o o', a.order b = .ok o → b.order c = .ok o' → o.isLE = true →
      o'.isLE = true → a.order c = .ok (o.then o')) ∧
    (Equivalence fun a b : Value ↦ a.equals b = true) ∧
    (∀ a b : Value, relate .eq a b = .ok (a.equals b)) ∧
    (∀ a b : Value, ∀ o, a.order b = .ok o → Relates a b o) ∧
    ∀ a b : Value, ¬ a.Comparable b → relate .eq a b = .ok false ∧
      ∀ r, r ≠ .eq → ∃ e, relate r a b = .error e ∧ e.category = .type := by
  refine ⟨fun a b ↦ comparable_iff, equivalence_comparable, fun a b o ↦ order_eq_ok_iff,
    fun a b o ↦ order_swap, fun a b c o o' ↦ order_trans, equivalence_equals, fun a b ↦ rfl,
    fun a b o ↦ relates, fun a b h ↦ ⟨?_, fun r hr ↦ ?_⟩⟩
  · have hequals : a.equals b = false :=
      Bool.eq_false_iff.2 fun heq ↦ h ⟨.eq, equals_iff.1 heq⟩
    rw [relate, if_pos rfl, hequals]
  · rw [relate, if_neg hr, order_of_not_comparable h]
    exact ⟨_, rfl, rfl⟩

/-- A truth value, decimals of both precisions, two lists of decimals and a text. -/
theorem compare_consistent_mixed :
    let one : Value := .bool true
    let same : Value := .decimal .fifteen ⟨10, 1⟩
    let more : Value := .decimal .seven ⟨15, 1⟩
    let shorter : Value := .list (.decimals .seven [⟨1, 0⟩])
    let longer : Value := .list (.decimals .fifteen [⟨100, 2⟩, ⟨-1, 0⟩])
    (one.order same = .ok .eq ∧ same.order more = .ok .lt ∧ one.order more = .ok .lt) ∧
      longer.order shorter = .ok .gt ∧ Relates one more .lt ∧
      ¬ one.Comparable (.text "1") ∧ relate .eq one (.text "1") = .ok false ∧
      ∃ e, relate .lt one (.text "1") = .error e ∧ e.category = .type := by
  intro one same more shorter longer
  obtain ⟨hclass, -, -, hswap, htrans, -, -, hrelates, hother⟩ := compare_consistent
  have hsame : one.order same = .ok .eq := by decide
  have hmore : same.order more = .ok .lt := by decide
  have hone := htrans _ _ _ _ _ hsame hmore rfl rfl
  have hshorter : shorter.order longer = .ok .lt := by decide
  have htext : ¬ one.Comparable (.text "1") := by
    rw [hclass]
    decide
  obtain ⟨heq, hlt⟩ := hother _ _ htext
  exact ⟨⟨hsame, hmore, hone⟩, hswap _ _ _ hshorter, hrelates _ _ _ hone, htext, heq,
    hlt .lt (by decide)⟩

end Value

end Haklang

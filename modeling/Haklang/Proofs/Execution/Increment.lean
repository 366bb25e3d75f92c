import Haklang.Proofs.Action.Respects
import Haklang.Proofs.Number.Notation
import Haklang.Proofs.Store.WellTyped
import Haklang.Proofs.Value.Arithmetic

/-!
# Increments are exact

Which texts name a step is said by their words (`Increment.Names`): four words, and two more that
may be repeated. The keyword is not compared with such a repetition, however; the places where the
word is found are counted, and the bytes of these places are compared with the bytes of the text.
That comes to the same (`Increment.repetitions?_eq_some_iff`). The places do not overlap, so
together they are at most as long as the text (`Increment.mul_byteLength_le`), and if they are as
long, there is nothing between them.

A step is added exactly to a decimal; the sum with an integer loses its places and may leave the
range (`Increment.Outcome`). A failed increment leaves every variable as it was.
-/

namespace Haklang

namespace Increment

/-! ### Repetitions -/

section Repetitions

variable {w cs rest : List Char} {k : Nat}

@[simp] theorem byteLength_append (p q : List Char) :
    byteLength (p ++ q) = byteLength p + byteLength q := by
  induction p with
  | nil => exact (Nat.zero_add _).symm
  | cons c p ih => rw [List.cons_append, byteLength, ih, byteLength, Nat.add_assoc]

theorem byteLength_flatten_replicate (w : List Char) (k : Nat) :
    byteLength (List.replicate k w).flatten = k * byteLength w := by
  induction k with
  | zero => rw [Nat.zero_mul]; rfl
  | succ k ih =>
    rw [List.replicate_succ, List.flatten_cons, byteLength_append, ih, Nat.succ_mul, Nat.add_comm]

/-- Passing over the rest of a place is leaving it out. -/
theorem occurrencesFrom_eq_drop (w : List Char) (left : Nat) (cs : List Char) :
    occurrencesFrom w left cs = occurrencesFrom w 0 (cs.drop left) := by
  induction cs generalizing left with
  | nil => cases left <;> rfl
  | cons c cs ih =>
    cases left with
    | zero => rfl
    | succ left => rw [occurrencesFrom, ih, List.drop_succ_cons]

/-- A word at the beginning of a text is found there, and the search goes on behind it. -/
theorem occurrencesFrom_append (hw : w ≠ []) (rest : List Char) :
    occurrencesFrom w 0 (w ++ rest) = occurrencesFrom w 0 rest + 1 := by
  cases w with
  | nil => exact absurd rfl hw
  | cons c w =>
    have hbegins : c :: w <+: c :: (w ++ rest) := List.prefix_append (c :: w) rest
    rw [List.cons_append, occurrencesFrom, if_pos hbegins, occurrencesFrom_eq_drop,
      List.length_cons, Nat.add_sub_cancel, List.drop_left]

theorem occurrencesFrom_flatten_replicate (hw : w ≠ []) (k : Nat) :
    occurrencesFrom w 0 (List.replicate k w).flatten = k := by
  induction k with
  | zero => rfl
  | succ k ih => rw [List.replicate_succ, List.flatten_cons, occurrencesFrom_append hw, ih]

/-- The places where a word is found are at most as long as the text, and as long only if the text
is nothing else. The induction goes on behind the place that is found, or behind one character. -/
theorem mul_byteLength_le (hw : w ≠ []) (cs : List Char) :
    occurrencesFrom w 0 cs * byteLength w ≤ byteLength cs ∧
      (byteLength cs = occurrencesFrom w 0 cs * byteLength w →
        cs = (List.replicate (occurrencesFrom w 0 cs) w).flatten) := by
  induction hlength : cs.length using Nat.strongRecOn generalizing cs with
  | ind n ih =>
    subst hlength
    by_cases hbegins : w <+: cs
    · obtain ⟨rest, rfl⟩ := hbegins
      have hshorter : rest.length < (w ++ rest).length := by
        have hpos := List.length_pos_iff.2 hw
        rw [List.length_append]
        omega
      obtain ⟨hle, heq⟩ := ih _ hshorter rest rfl
      rw [occurrencesFrom_append hw, byteLength_append, Nat.succ_mul]
      refine ⟨by omega, fun h ↦ ?_⟩
      rw [List.replicate_succ, List.flatten_cons, ← heq (by omega)]
    · cases cs with
      | nil => exact ⟨Nat.le_of_eq (Nat.zero_mul _), fun _ ↦ rfl⟩
      | cons c cs =>
        obtain ⟨hle, -⟩ := ih _ (Nat.lt_succ_self _) cs rfl
        have hlt : byteLength cs < byteLength (c :: cs) :=
          Nat.lt_add_of_pos_left c.utf8Size_pos
        rw [occurrencesFrom, if_neg hbegins]
        exact ⟨by omega, fun h ↦ by omega⟩

/-- Counting the places decides whether a text repeats a word and nothing else. -/
theorem repetitions?_eq_some_iff (hw : w ≠ []) :
    repetitions? w cs = some k ↔ k ≠ 0 ∧ cs = (List.replicate k w).flatten := by
  rw [repetitions?]
  simp only [Option.ite_none_right_eq_some, Option.some.injEq]
  constructor
  · rintro ⟨⟨hbegins, hbytes⟩, rfl⟩
    refine ⟨?_, (mul_byteLength_le hw cs).2 hbytes⟩
    obtain ⟨rest, rfl⟩ := hbegins
    rw [occurrencesFrom_append hw]
    exact Nat.succ_ne_zero _
  · rintro ⟨hk, rfl⟩
    obtain ⟨j, rfl⟩ := Nat.exists_eq_succ_of_ne_zero hk
    rw [occurrencesFrom_flatten_replicate hw]
    refine ⟨⟨?_, byteLength_flatten_replicate w _⟩, rfl⟩
    rw [List.replicate_succ, List.flatten_cons]
    exact List.prefix_append w _

end Repetitions

/-! ### Keywords -/

/-- A word several times, one behind the other. -/
def repeated (w : String) (k : Nat) : String := String.ofList (List.replicate k w.toList).flatten

/-- The keywords and the steps that they name. -/
inductive Names : String → ℚ → Prop where
  /-- One. -/
  | one : Names "밥" 1
  /-- A tenth. -/
  | tenth : Names "빵" (1 / 10)
  /-- Minus one. -/
  | minusOne : Names "야채" (-1)
  /-- Minus a tenth. -/
  | minusTenth : Names "설사약" (-1 / 10)
  /-- A hundredth, and with each repetition a tenth of it. -/
  | small (k : Nat) (hk : k ≠ 0) : Names (repeated "고기" k) ((10 : ℚ) ^ (-(k + 1 : ℤ)))
  /-- The opposites of these. -/
  | minusSmall (k : Nat) (hk : k ≠ 0) : Names (repeated "포자빵" k) (-(10 : ℚ) ^ (-(k + 1 : ℤ)))

section Keywords

variable {keyword w : String} {k : Nat}

theorem repetitions?_toList (hw : w.toList ≠ []) :
    repetitions? w.toList keyword.toList = some k ↔ k ≠ 0 ∧ keyword = repeated w k := by
  rw [repetitions?_eq_some_iff hw, repeated, ← String.toList_inj, String.toList_ofList]

/-- A repeated word begins as the word does. -/
theorem head?_repeated {c : Char} (hw : w.toList.head? = some c) (hk : k ≠ 0) :
    (repeated w k).toList.head? = some c := by
  obtain ⟨j, rfl⟩ := Nat.exists_eq_succ_of_ne_zero hk
  rw [repeated, String.toList_ofList, List.replicate_succ, List.flatten_cons, List.head?_append, hw]
  rfl

/-- A text that begins with another character is no such repetition. -/
theorem repetitions?_eq_none {c d : Char} (hw : w.toList.head? = some c)
    (hkeyword : keyword.toList.head? = some d) (hne : c ≠ d) :
    repetitions? w.toList keyword.toList = none := by
  have hwne : w.toList ≠ [] := by
    intro h
    rw [h] at hw
    cases hw
  rw [Option.eq_none_iff_forall_ne_some]
  intro k h
  obtain ⟨hk, rfl⟩ := (repetitions?_toList hwne).1 h
  rw [head?_repeated hw hk] at hkeyword
  exact hne (Option.some.inj hkeyword)

/-- A text that begins like none of the four words has to repeat one of the others. -/
theorem step?_eq_of_head? {c : Char} (hkeyword : keyword.toList.head? = some c)
    (hc : c ∉ ['밥', '빵', '야', '설']) :
    step? keyword = Option.or
      ((repetitions? "고기".toList keyword.toList).map fun k : Nat ↦ ⟨1, k + 1⟩)
      ((repetitions? "포자빵".toList keyword.toList).map fun k : Nat ↦ ⟨-1, k + 1⟩) := by
  have hne (t : String) {d : Char} (ht : t.toList.head? = some d)
      (hd : d ∈ ['밥', '빵', '야', '설']) : keyword ≠ t := by
    rintro rfl
    rw [ht] at hkeyword
    exact hc (Option.some.inj hkeyword ▸ hd)
  rw [step?, if_neg (hne "밥" rfl (by decide)), if_neg (hne "빵" rfl (by decide)),
    if_neg (hne "야채" rfl (by decide)), if_neg (hne "설사약" rfl (by decide))]
  cases repetitions? "고기".toList keyword.toList <;> rfl

/-- The keywords name the steps that are added. -/
theorem names_iff {q : ℚ} : Names keyword q ↔ ∃ d, step? keyword = some d ∧ d.toRat = q := by
  have hone : Decimal.toRat ⟨1, 0⟩ = 1 := by norm_num [Decimal.toRat_mk]
  have htenth : Decimal.toRat ⟨1, 1⟩ = 1 / 10 := by norm_num [Decimal.toRat_mk]
  have hminusOne : Decimal.toRat ⟨-1, 0⟩ = -1 := by norm_num [Decimal.toRat_mk]
  have hminusTenth : Decimal.toRat ⟨-1, 1⟩ = -1 / 10 := by norm_num [Decimal.toRat_mk]
  have hsmall (k : ℕ) : Decimal.toRat ⟨1, k + 1⟩ = (10 : ℚ) ^ (-(k + 1 : ℤ)) := by
    rw [Decimal.toRat_mk, Int.cast_one, one_mul]
  have hminusSmall (k : ℕ) : Decimal.toRat ⟨-1, k + 1⟩ = -(10 : ℚ) ^ (-(k + 1 : ℤ)) := by
    rw [Decimal.toRat_mk, Int.cast_neg, Int.cast_one, neg_one_mul]
  constructor
  · rintro (- | - | - | - | ⟨k, hk⟩ | ⟨k, hk⟩)
    · exact ⟨⟨1, 0⟩, rfl, hone⟩
    · exact ⟨⟨1, 1⟩, rfl, htenth⟩
    · exact ⟨⟨-1, 0⟩, rfl, hminusOne⟩
    · exact ⟨⟨-1, 1⟩, rfl, hminusTenth⟩
    · refine ⟨⟨1, k + 1⟩, ?_, hsmall k⟩
      rw [step?_eq_of_head? (head?_repeated (c := '고') rfl hk) (by decide),
        (repetitions?_toList (by decide)).2 ⟨hk, rfl⟩]
      rfl
    · refine ⟨⟨-1, k + 1⟩, ?_, hminusSmall k⟩
      have hhead : (repeated "포자빵" k).toList.head? = some '포' := head?_repeated rfl hk
      rw [step?_eq_of_head? hhead (by decide),
        repetitions?_eq_none (c := '고') rfl hhead (by decide),
        (repetitions?_toList (by decide)).2 ⟨hk, rfl⟩]
      rfl
  · -- the four words are tried first, and then what is repeated is counted
    rintro ⟨d, hstep, rfl⟩
    rw [step?] at hstep
    split at hstep
    case isTrue h => rw [h, ← Option.some.inj hstep, hone]; exact .one
    split at hstep
    case isTrue h => rw [h, ← Option.some.inj hstep, htenth]; exact .tenth
    split at hstep
    case isTrue h => rw [h, ← Option.some.inj hstep, hminusOne]; exact .minusOne
    split at hstep
    case isTrue h => rw [h, ← Option.some.inj hstep, hminusTenth]; exact .minusTenth
    split at hstep
    case h_1 k hcount =>
      obtain ⟨hk, rfl⟩ := (repetitions?_toList (by decide)).1 hcount
      rw [← Option.some.inj hstep, hsmall]
      exact .small k hk
    case h_2 =>
      obtain ⟨k, hcount, rfl⟩ := Option.map_eq_some_iff.1 hstep
      obtain ⟨hk, rfl⟩ := (repetitions?_toList (by decide)).1 hcount
      rw [hminusSmall]
      exact .minusSmall k hk

end Keywords

/-! ### Values -/

/-- What becomes of a value in an increment. -/
inductive Outcome (keyword : String) : Value → Except Fault Value → Prop where
  /-- The step is added to a decimal. -/
  | decimal {q : ℚ} {p : Precision} {d e : Decimal} (hq : Names keyword q)
    (he : e.toRat = d.toRat + q) : Outcome keyword (.decimal p d) (.ok (.decimal p e))
  /-- The step is added to an integer, and the sum loses its places. -/
  | int {q : ℚ} {n k : Integer} (hq : Names keyword q) (hk : k.val = towardZero (n.val + q)) :
    Outcome keyword (.int n) (.ok (.int k))
  /-- The sum is out of range. -/
  | overflow {q : ℚ} {n : Integer} (hq : Names keyword q)
    (hout : ¬ Integer.InRange (towardZero (n.val + q))) :
    Outcome keyword (.int n) (.error .integerOverflow)
  /-- The keyword of a number names no step. -/
  | unknown {v : Value} {f : Fault} (hv : v.isNumeric = true) (hno : ∀ q, ¬ Names keyword q)
    (hf : f.category = .unknownStatement) : Outcome keyword v (.error f)
  /-- There is no number, whatever the keyword is. -/
  | noNumber {v : Value} {f : Fault} (hv : v.isNumeric = false) (hf : f.category = .type) :
    Outcome keyword v (.error f)

/-- The step is added to an integer, if the sum is in range. -/
theorem outcome_int {keyword : String} {step : Decimal} (hq : Names keyword step.toRat)
    (name : String) (n : Integer) : Outcome keyword (.int n) (advance name step (.int n)) := by
  have hsum : ((Decimal.ofInt n.val).add step).toRat = n.val + step.toRat := by
    rw [Decimal.toRat_add, Decimal.toRat_ofInt]
  rw [advance]
  cases hk : ((Decimal.ofInt n.val).add step).truncate? with
  | some k =>
    rw [Decimal.truncate?_eq, hsum, Integer.ofInt?_eq_some_iff] at hk
    exact .int hq hk
  | none =>
    rw [Decimal.truncate?_eq, hsum, Integer.ofInt?_eq_none_iff_not_inRange] at hk
    exact .overflow hq hk

/-- What comes of a value is told by its step, and where there is none, by the reason for that. -/
theorem outcome_bind {v : Value} (hv : v.Plain) (name keyword : String) :
    Outcome keyword v ((stepOf name keyword v).bind fun step ↦ advance name step v) := by
  rw [stepOf]
  cases hnumeric : v.isNumeric with
  | false => exact .noNumber hnumeric rfl
  | true =>
    cases hstep : step? keyword with
    | none =>
      refine .unknown hnumeric (fun q hq ↦ ?_) rfl
      obtain ⟨d, hd, -⟩ := names_iff.1 hq
      rw [hstep] at hd
      cases hd
    | some step =>
      have hq : Names keyword step.toRat := names_iff.2 ⟨step, hstep, rfl⟩
      cases v with
      | int n => exact outcome_int hq name n
      | decimal p d => exact .decimal hq (Decimal.toRat_add d step)
      | bool b => exact absurd rfl (hv b)
      | text s => cases hnumeric
      | list xs => cases hnumeric

end Increment

/-! ### Statements -/

section Statements

open Haklang.Action Increment

variable {name keyword : String} {m : Machine} {v : Variable}

/-- An increment that succeeds writes the variable. -/
theorem Statement.run_increment_of_ok {step : Decimal} {w : Value}
    (hv : m.store.lookup? name = some v) (hstep : stepOf name keyword v.value = .ok step)
    (hw : advance name step v.value = .ok w) (call : Callee) (line : SourceLine) :
    (increment name keyword).run call line m =
      .ok .next { m with store := m.store.put name { v with value := w } } := by
  have hrun : incrementBy name keyword m =
      .ok () { m with store := m.store.put name { v with value := w } } := by
    rw [incrementBy, bind_of_ok (read_get_of_some hv), hstep,
      bind_of_ok (show ofExcept (.ok step) m = .ok step m from rfl)]
    exact change_of_ok (Store.update_of_ok hv hw)
  rw [run, bind_of_ok hrun]
  rfl

/-- An increment that fails leaves the variables alone where there is no step, and otherwise has
copied the one that it is about. -/
theorem Statement.run_increment_of_error {f : Fault} (hv : m.store.lookup? name = some v)
    (h : ((stepOf name keyword v.value).bind fun step ↦ advance name step v.value) = .error f)
    (call : Callee) (line : SourceLine) :
    ∃ store, (store = m.store ∨ store = (m.store.own name).2) ∧
      (increment name keyword).run call line m = .error { fault := f } { m with store } := by
  cases hstep : stepOf name keyword v.value with
  | error e =>
    rw [hstep] at h
    obtain rfl : e = f := Except.error.inj h
    have hrun : incrementBy name keyword m = .error { fault := e } m := by
      rw [incrementBy, bind_of_ok (read_get_of_some hv), hstep]
      rfl
    exact ⟨m.store, .inl rfl, by rw [run, bind_of_error hrun]⟩
  | ok step =>
    rw [hstep] at h
    have hrun : incrementBy name keyword m =
        .error { fault := f } { m with store := (m.store.own name).2 } := by
      rw [incrementBy, bind_of_ok (read_get_of_some hv), hstep,
        bind_of_ok (show ofExcept (.ok step) m = .ok step m from rfl), change_apply,
        Store.update_of_error hv h]
      rfl
    exact ⟨_, .inr rfl, by rw [run, bind_of_error hrun]⟩

/-- A repeated word and its opposite, as often, cancel each other. -/
theorem Statement.run_increment_opposite {k : Nat} {p : Precision} {d : Decimal} (hk : k ≠ 0)
    (hv : m.store.lookup? name = some v) (hvalue : v.value = .decimal p d) (call : Callee)
    (line line' : SourceLine) :
    ∃ m₁ m₂ e, (increment name (repeated "고기" k)).run call line m = .ok .next m₁ ∧
      (increment name (repeated "포자빵" k)).run call line' m₁ = .ok .next m₂ ∧
      e.toRat = d.toRat ∧ m₂.store.lookup? name = some { v with value := .decimal p e } := by
  obtain ⟨up, hup, hupRat⟩ := names_iff.1 (Names.small k hk)
  obtain ⟨down, hdown, hdownRat⟩ := names_iff.1 (Names.minusSmall k hk)
  let w : Variable := { v with value := .decimal p (d.add up) }
  have hw : (m.store.put name w).lookup? name = some w := by rw [Store.lookup?_put, if_pos rfl]
  have hstep {keyword : String} {step e : Decimal} (h : step? keyword = some step) :
      stepOf name keyword (.decimal p e) = .ok step := by
    rw [stepOf, h]
    rfl
  refine ⟨_, _, (d.add up).add down,
    run_increment_of_ok hv (hvalue ▸ hstep hup) (w := w.value) (hvalue ▸ rfl) call line,
    run_increment_of_ok hw (hstep hdown) rfl call line', ?_, ?_⟩
  · rw [Decimal.toRat_add, Decimal.toRat_add, hupRat, hdownRat, add_neg_cancel_right]
  · rw [Store.lookup?_put, if_pos rfl]

/-- Increments accept their keywords and are exact. A keyword names a step exactly if it is one of
four words or one of two others repeated at least once. On a variable, which holds no truth value,
an increment does what is said in `Increment.Outcome`, and if it fails, every variable is what it
was before. Words that are repeated as often cancel each other on a decimal. -/
theorem increments_exact :
    (∀ keyword q, Names keyword q ↔ ∃ d, step? keyword = some d ∧ d.toRat = q) ∧
    (∀ name keyword (m : Machine) v call line, m.store.lookup? name = some v → v.value.Plain →
      ∃ r, Outcome keyword v.value r ∧
        match r with
        | .ok w => (Statement.increment name keyword).run call line m =
            .ok .next { m with store := m.store.put name { v with value := w } }
        | .error f => ∃ m', (Statement.increment name keyword).run call line m =
            .error { fault := f } m' ∧
            ∀ other, m'.store.lookup? other = m.store.lookup? other) ∧
    ∀ name k (m : Machine) v p d call line line', k ≠ 0 → m.store.lookup? name = some v →
      v.value = .decimal p d →
      ∃ m₁ m₂ e, (Statement.increment name (repeated "고기" k)).run call line m = .ok .next m₁ ∧
        (Statement.increment name (repeated "포자빵" k)).run call line' m₁ = .ok .next m₂ ∧
        e.toRat = d.toRat ∧ m₂.store.lookup? name = some { v with value := .decimal p e } := by
  refine ⟨fun keyword q ↦ names_iff, fun name keyword m v call line hv hplain ↦ ?_,
    fun name k m v p d call line line' hk hv hvalue ↦
      Statement.run_increment_opposite hk hv hvalue call line line'⟩
  refine ⟨_, outcome_bind hplain name keyword, ?_⟩
  cases h : (stepOf name keyword v.value).bind fun step ↦ advance name step v.value with
  | ok w =>
    cases hstep : stepOf name keyword v.value with
    | error e =>
      rw [hstep] at h
      cases h
    | ok step =>
      rw [hstep] at h
      exact Statement.run_increment_of_ok hv hstep h call line
  | error f =>
    obtain ⟨store, hstore, hrun⟩ := Statement.run_increment_of_error hv h call line
    refine ⟨_, hrun, fun other ↦ ?_⟩
    obtain rfl | rfl := hstore
    · rfl
    · exact m.store.lookup?_own name other

/-- The greatest integer, and a decimal. -/
theorem increments_exact_greatest :
    let x : Variable := ⟨.int ⟨9223372036854775807, by decide, by decide⟩, .int, false⟩
    let y : Variable := ⟨.decimal .seven ⟨307, 1⟩, .decimal .seven, true⟩
    let m : Machine := { generator := .ofSeed 0, store := (({} : Store).put "x" x).put "y" y }
    (∃ m', (Statement.increment "x" "밥").run (callFunction 0) ⟨1, ""⟩ m =
        .error { fault := .integerOverflow } m' ∧ m'.store.lookup? "x" = some x) ∧
      ∃ m₁ m₂ e,
        (Statement.increment "y" "고기고기").run (callFunction 0) ⟨1, ""⟩ m = .ok .next m₁ ∧
        (Statement.increment "y" "포자빵포자빵").run (callFunction 0) ⟨2, ""⟩ m₁ = .ok .next m₂ ∧
        e.toRat = Decimal.toRat ⟨307, 1⟩ ∧
        m₂.store.lookup? "y" = some { y with value := .decimal .seven e } := by
  intro x y m
  obtain ⟨hnames, hrun, hopposite⟩ := increments_exact
  have hx : m.store.lookup? "x" = some x := by
    rw [Store.lookup?_put, if_neg (by decide), Store.lookup?_put, if_pos rfl]
  have hy : m.store.lookup? "y" = some y := by rw [Store.lookup?_put, if_pos rfl]
  refine ⟨?_, hopposite "y" 2 m y .seven ⟨307, 1⟩ _ ⟨1, ""⟩ ⟨2, ""⟩ (by decide) hy rfl⟩
  have hsum (q : ℚ) (hq : Names "밥" q) :
      towardZero ((9223372036854775807 : ℤ) + q) = 9223372036854775808 := by
    obtain ⟨d, hd, rfl⟩ := (hnames "밥" q).1 hq
    obtain rfl := Option.some.inj hd
    norm_num [Decimal.toRat_mk, towardZero]
  have hplain : x.value.Plain := fun b hb ↦ by cases hb
  obtain ⟨r, hr, hresult⟩ := hrun "x" "밥" m x (callFunction 0) ⟨1, ""⟩ hx hplain
  cases hr with
  | @int q n k hq hk =>
    have hle := k.le_greatest
    rw [hk, hsum q hq] at hle
    exact absurd hle (by decide)
  | overflow hq hout =>
    obtain ⟨m', hm', hsame⟩ := hresult
    exact ⟨m', hm', (hsame "x").trans hx⟩
  | unknown hv hno hf => exact absurd .one (hno 1)
  | noNumber hv hf => cases hv

end Statements

end Haklang

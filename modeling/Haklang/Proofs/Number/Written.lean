import Haklang.Number.Decimal.Reader
import Haklang.Number.Decimal.Rounding
import Haklang.Proofs.Text.Found

/-!
# Reading written decimals

Plain notation puts a point before the last digits of a whole number of units. Reading takes the
point out again, so what is read is that number of units at that many places (`read?_plain`),
whatever the sign, and also when there are no places and no point.

From this, writing a decimal with at least as many places as it has loses nothing but the scale:
what is read back is the same number (`read?_write`, `compare_withPlaces`).
-/

namespace Haklang

-- Powers are those of the core library, whatever other instances are in sight.
attribute [local instance (high)] instPowNat

namespace Numeral

/-- Digits that are written are read as the number. -/
theorem ofDigitChars_write (n : Nat) : Nat.ofDigitChars 10 (write n) 0 = n :=
  Nat.ofDigitChars_toDigits (by decide) (by decide)

/-- A number below a power of ten has at most as many digits as the exponent says. -/
theorem length_write_le {n k : Nat} (hk : 0 < k) (h : n < 10 ^ k) : (write n).length ≤ k :=
  (Nat.length_toDigits_le_iff (by decide) hk).2 h

/-- Digits are read to the number that they stand for. -/
theorem read?_of_isDigit {cs : List Char} (hne : cs ≠ []) (h : ∀ c ∈ cs, c.isDigit = true) :
    read? cs = some (Nat.ofDigitChars 10 cs 0) := by
  rw [read?, if_pos ⟨hne, List.all_eq_true.2 h⟩]

/-- What holds a character that is no digit is no numeral. -/
theorem read?_eq_none_of_mem {cs : List Char} {c : Char} (hc : c ∈ cs) (h : c.isDigit = false) :
    read? cs = none := by
  rw [read?, if_neg]
  rintro ⟨_, hall⟩
  rw [List.all_eq_true.1 hall c hc] at h
  exact absurd h (by decide)

end Numeral

namespace Decimal

/-! ### Plain notation without its point -/

/-- What is left of plain notation without its point. -/
def plainDigits (k n : Nat) : List Char :=
  if k = 0 then Numeral.write n
  else
    let fraction := Numeral.write (n % 10 ^ k)
    Numeral.write (n / 10 ^ k) ++ (List.replicate (k - fraction.length) '0' ++ fraction)

/-- The digits stand for the number of units. -/
theorem ofDigitChars_plainDigits (k n : Nat) :
    Nat.ofDigitChars 10 (plainDigits k n) 0 = n := by
  rcases Nat.eq_zero_or_pos k with rfl | hk
  · exact Numeral.ofDigitChars_write n
  · have hlen : (Numeral.write (n % 10 ^ k)).length ≤ k :=
      Numeral.length_write_le hk (Nat.mod_lt n (Nat.pow_pos (by decide)))
    have hpow : 10 ^ (Numeral.write (n % 10 ^ k)).length *
        10 ^ (k - (Numeral.write (n % 10 ^ k)).length) = 10 ^ k := by
      rw [← Nat.pow_add, Nat.add_sub_cancel' hlen]
    rw [plainDigits, if_neg (Nat.ne_of_gt hk), Nat.ofDigitChars_append,
      Numeral.ofDigitChars_write, Nat.ofDigitChars_append, Nat.ofDigitChars_replicate_zero,
      Nat.ofDigitChars_eq_ofDigitChars_zero, Numeral.ofDigitChars_write, ← Nat.mul_assoc, hpow]
    exact Nat.div_add_mod n (10 ^ k)

/-- Padding consists of digits. -/
theorem isDigit_of_mem_padding {m n : Nat} {c : Char}
    (h : c ∈ List.replicate m '0' ++ Numeral.write n) : c.isDigit = true := by
  rcases List.mem_append.1 h with h | h
  · rw [List.eq_of_mem_replicate h]
    rfl
  · exact Numeral.isDigit_of_mem_write h

/-- So do digits of any length. -/
theorem isDigit_of_mem_plainDigits {k n : Nat} {c : Char} (h : c ∈ plainDigits k n) :
    c.isDigit = true := by
  rw [plainDigits] at h
  split at h
  · exact Numeral.isDigit_of_mem_write h
  · rcases List.mem_append.1 h with h | h
    · exact Numeral.isDigit_of_mem_write h
    · exact isDigit_of_mem_padding h

/-- There is at least one digit before the point. -/
theorem plainDigits_ne_nil (k n : Nat) : plainDigits k n ≠ [] := by
  rw [plainDigits]
  split
  · exact Numeral.write_ne_nil n
  · exact List.append_ne_nil_of_left_ne_nil (Numeral.write_ne_nil _) _

/-- Plain notation consists of digits and a point. -/
theorem isDigit_or_eq_of_mem_plainNat {k n : Nat} {c : Char} (h : c ∈ plainNat k n) :
    c.isDigit = true ∨ c = '.' := by
  rw [plainNat] at h
  split at h
  · exact .inl (Numeral.isDigit_of_mem_write h)
  · rcases List.mem_append.1 h with h | h
    · exact .inl (Numeral.isDigit_of_mem_write h)
    · rcases List.mem_cons.1 h with h | h
      · exact .inr h
      · exact .inl (isDigit_of_mem_padding h)

/-- A digit is no point. -/
theorem ne_point_of_isDigit {c : Char} (h : c.isDigit = true) : (c == '.') = false := by
  rw [beq_eq_false_iff_ne]
  rintro rfl
  exact absurd h (by decide)

/-- Taking the point out of plain notation leaves its digits, and the number of its places. What
stands before the digits stays there. -/
theorem removePoint_append_plainNat {sign : List Char} (hs : ∀ c ∈ sign, (c == '.') = false)
    (k n : Nat) : removePoint (sign ++ plainNat k n) = (sign ++ plainDigits k n, k) := by
  have hwhole {m : Nat} : ∀ c ∈ sign ++ Numeral.write m, (c == '.') = false := by
    intro c hc
    rcases List.mem_append.1 hc with hc | hc
    · exact hs c hc
    · exact ne_point_of_isDigit (Numeral.isDigit_of_mem_write hc)
  rcases Nat.eq_zero_or_pos k with rfl | hk
  · rw [plainNat, if_pos rfl, plainDigits, if_pos rfl, removePoint,
      Text.splitAtFirst?_eq_none hwhole]
  · have hlen : (Numeral.write (n % 10 ^ k)).length ≤ k :=
      Numeral.length_write_le hk (Nat.mod_lt n (Nat.pow_pos (by decide)))
    have hno : ∀ c ∈ List.replicate (k - (Numeral.write (n % 10 ^ k)).length) '0' ++
        Numeral.write (n % 10 ^ k), (c != '_') = true := by
      intro c hc
      rw [bne_iff_ne]
      rintro rfl
      exact absurd (isDigit_of_mem_padding hc) (by decide)
    rw [plainNat, if_neg (Nat.ne_of_gt hk), plainDigits, if_neg (Nat.ne_of_gt hk), removePoint,
      ← List.append_assoc, Text.splitAtFirst?_append hwhole rfl]
    simp only [List.filter_eq_self.2 hno, List.append_assoc, List.length_append,
      List.length_replicate, Nat.sub_add_cancel hlen]

/-! ### Reading -/

/-- Without an exponent the scale is the number of places. -/
theorem read?_of_not_mem {cs : List Char} (he : 'e' ∉ cs) (hE : 'E' ∉ cs) :
    read? cs =
      if ((removePoint cs).2 : Int) ≤ 9223372036854775807 then
        (readSigned? (removePoint cs).1).map fun n ↦ ⟨n, (removePoint cs).2⟩
      else none := by
  have hcut : Text.splitAtFirst? (fun c ↦ c == 'e' || c == 'E') cs = none := by
    refine Text.splitAtFirst?_eq_none fun c hc ↦ ?_
    rw [Bool.or_eq_false_iff, beq_eq_false_iff_ne, beq_eq_false_iff_ne]
    exact ⟨fun h ↦ he (h ▸ hc), fun h ↦ hE (h ▸ hc)⟩
  have hlow : (-9223372036854775808 : Int) ≤ ((removePoint cs).2 : Int) := by omega
  rw [read?, hcut]
  show (if -9223372036854775808 ≤ ((removePoint cs).2 : Int) - 0 ∧
      ((removePoint cs).2 : Int) - 0 ≤ 9223372036854775807 then
    (readSigned? (removePoint cs).1).map fun n ↦ (⟨n, (removePoint cs).2 - 0⟩ : Decimal)
    else none) = _
  simp only [Int.sub_zero, hlow, true_and]

/-- Digits with at least one among them are read as the number that they stand for. -/
theorem readDigits?_of_isDigit {cs : List Char} (hne : cs ≠ []) (h : ∀ c ∈ cs, c.isDigit = true) :
    readDigits? cs = some (Nat.ofDigitChars 10 cs 0) := by
  have hno {c : Char} (hc : c ∈ cs) : c ≠ '_' := by
    rintro rfl
    exact absurd (h _ hc) (by decide)
  rw [readDigits?, List.filter_eq_self.2 fun c hc ↦ bne_iff_ne.2 (hno hc),
    Numeral.read?_of_isDigit hne h]
  rintro r rfl
  exact hno List.mem_cons_self rfl

/-- A minus sign, if there is one, before digits. -/
theorem readSigned?_of_isDigit {cs : List Char} (hne : cs ≠ []) (h : ∀ c ∈ cs, c.isDigit = true)
    (minus : Bool) : readSigned? ((if minus then ['-'] else []) ++ cs) =
      some (if minus then -(Nat.ofDigitChars 10 cs 0 : Int) else Nat.ofDigitChars 10 cs 0) := by
  have hno {c : Char} (hc : c.isDigit = false) : cs.head? ≠ some c := by
    intro heq
    rw [h c (List.mem_of_head? heq)] at hc
    exact absurd hc (by decide)
  cases minus with
  | true =>
    show readSigned? ('-' :: cs) = _
    rw [readSigned?, if_neg (hno rfl), readDigits?_of_isDigit hne h]
    rfl
  | false =>
    show readSigned? cs = _
    rw [readSigned?, readDigits?_of_isDigit hne h]
    · rfl
    · rintro r rfl
      exact hno (c := '-') rfl rfl
    · rintro r rfl
      exact hno (c := '+') rfl rfl

/-- A decimal is written with its sign, and then as its magnitude. -/
theorem plain_eq (k : Nat) (n : Int) :
    plain k n = (if decide (n < 0) then ['-'] else []) ++ plainNat k n.natAbs := by
  rw [plain]
  by_cases h : n < 0 <;> simp [h]

/-- What is written in plain notation is read back, at as many places as were written. -/
theorem read?_plain {k : Nat} (hk : k ≤ 9223372036854775807) (n : Int) :
    read? (plain k n) = some ⟨n, k⟩ := by
  have hmem {c : Char} (hc : c ∈ plain k n) : c = '-' ∨ c.isDigit = true ∨ c = '.' := by
    rw [plain_eq] at hc
    rcases List.mem_append.1 hc with hc | hc
    · split at hc
      · exact .inl (List.mem_singleton.1 hc)
      · exact absurd hc List.not_mem_nil
    · exact .inr (isDigit_or_eq_of_mem_plainNat hc)
  have hsign : ∀ c ∈ (if decide (n < 0) then ['-'] else []), (c == '.') = false := by
    intro c hc
    split at hc
    · rw [List.mem_singleton.1 hc]
      rfl
    · exact absurd hc List.not_mem_nil
  rw [read?_of_not_mem (fun h ↦ absurd (hmem h) (by decide)) fun h ↦ absurd (hmem h) (by decide),
    plain_eq, removePoint_append_plainNat hsign, if_pos (by omega),
    readSigned?_of_isDigit (plainDigits_ne_nil k _) fun _ h ↦ isDigit_of_mem_plainDigits h,
    ofDigitChars_plainDigits]
  by_cases h : n < 0
  · simp only [h, decide_true, if_true, Option.map_some]
    congr 2
    omega
  · simp only [h, decide_false, Bool.false_eq_true, if_false, Option.map_some]
    congr 2
    omega

/-! ### Other texts -/

/-- What begins with neither a digit nor a sign is no number. -/
theorem readSigned?_cons_eq_none {c : Char} (hd : c.isDigit = false) (hc : c ∉ ['-', '+', '_'])
    (r : List Char) : readSigned? (c :: r) = none := by
  simp only [List.mem_cons, not_or] at hc
  have hdigits : readDigits? (c :: r) = none := by
    rw [readDigits?, List.filter_cons, if_pos (bne_iff_ne.2 hc.2.2.1),
      Numeral.read?_eq_none_of_mem List.mem_cons_self hd]
    rintro t heq
    exact hc.2.2.1 (List.cons.inj heq).1
  rw [readSigned?, hdigits]
  · rfl
  · rintro t heq
    exact hc.1 (List.cons.inj heq).1
  · rintro t heq
    exact hc.2.1 (List.cons.inj heq).1

/-- A number begins with a character that it can hold. -/
theorem read?_cons_eq_none {c : Char} (hd : c.isDigit = false)
    (hc : c ∉ ['-', '+', '_', '.', 'e', 'E']) (r : List Char) : read? (c :: r) = none := by
  simp only [List.mem_cons, not_or] at hc
  have hsigned (t : List Char) : readSigned? (c :: t) = none :=
    readSigned?_cons_eq_none hd (by simp [hc]) t
  have hpoint (t : List Char) : ∃ t', (removePoint (c :: t)).1 = c :: t' := by
    rw [removePoint, Text.splitAtFirst?, if_neg (by simp [hc])]
    cases Text.splitAtFirst? (fun c ↦ c == '.') t with
    | none => exact ⟨t, rfl⟩
    | some p => exact ⟨p.1 ++ p.2, rfl⟩
  have hbase (t : List Char) : readSigned? (removePoint (c :: t)).1 = none := by
    obtain ⟨t', ht'⟩ := hpoint t
    rw [ht', hsigned]
  rw [read?, Text.splitAtFirst?, if_neg (by simp [hc])]
  cases Text.splitAtFirst? (fun c ↦ c == 'e' || c == 'E') r with
  | none => simp [hbase]
  | some p =>
    cases Numeral.readInt? p.2 with
    | none => simp [*]
    | some n => simp [*]

/-! ### All places -/

/-- As many places as the number has, and at least one. -/
def places (d : Decimal) : Nat := (max d.scale 1).toNat

/-- The number with at least one place. -/
def withPlaces (d : Decimal) : Decimal := ⟨d.units .halfEven d.places, d.places⟩

/-- The number written with all its places, of which there is at least one. -/
def write (d : Decimal) : List Char := (d.fixed d.places).toList

/-- No digit that a decimal has is lost when it is written. -/
theorem scale_le_places (d : Decimal) : d.scale ≤ d.places := by
  rw [places]
  omega

/-- There is always a point. -/
theorem point_mem_write (d : Decimal) : '.' ∈ d.write := by
  have hk : d.places ≠ 0 := by
    rw [places]
    omega
  rw [write, fixed, String.toList_ofList, plain_eq, plainNat, if_neg hk]
  simp

/-- What is written with all places is read back with at least one. -/
theorem read?_write {d : Decimal} (h : d.scale ≤ 9223372036854775807) :
    read? d.write = some d.withPlaces := by
  have hk : d.places ≤ 9223372036854775807 := by
    rw [places]
    omega
  rw [write, fixed, String.toList_ofList, read?_plain hk, withPlaces]

/-- More places make no other number. -/
theorem compare_withPlaces (d : Decimal) : compare d.withPlaces d = .eq := by
  have hle := d.scale_le_places
  rw [compare, withPlaces, units_of_le hle]
  split
  case isTrue h =>
    have heq : (d.places : Int) = d.scale := Int.le_antisymm h hle
    rw [compareShifted_eq]
    simp [heq]
  case isFalse h =>
    rw [compareShifted_eq]
    simp

end Decimal

end Haklang

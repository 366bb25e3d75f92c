import Haklang.Proofs.Line.Comment
import Haklang.Proofs.Text.Found
import Mathlib.Data.List.Forall2

/-!
# Written output

Output tokens stand side by side with nothing between them, and a token of one kind may hold the
delimiters of the others. Still they are read back as they were written: where a token starts, the
first character says of which kind it is, and what closes it is the first character of its own kind
that can, which no text of that kind holds (`OutputItem.Writable`). So reading a token off the front
of a text leaves exactly what was written behind it (`OutputItem.token?_write`), and the rest is an
induction on the list.

A line starts with the parenthesis around the tokens, so no rule before those for output fits. The
shorter word of output is the end of the longer one, but what stands before it is the closing
parenthesis.

What a token writes depends on what it finds (`OutputItem.Writes`). Running the line writes one such
text for each token, in their order, and changes nothing else (`Tree.run_output`).
-/

namespace Haklang

open Text

/-! ### Tokens -/

theorem closedPosition?_write {n : Nat} (h : n < 18446744073709551616) (r : List Char) :
    closedPosition? (Numeral.write n ++ ']' :: r) = some (n, r) := by
  have hdigits : ∀ c ∈ Numeral.write n, isDecimalDigit c = true := fun _ hc ↦
    isDecimalDigit_of_isDigit (Numeral.isDigit_of_mem_write hc)
  have htake : (Numeral.write n ++ ']' :: r).takeWhile isDecimalDigit = Numeral.write n := by
    rw [List.takeWhile_append_of_pos hdigits, List.takeWhile_cons_of_neg (by decide),
      List.append_nil]
  have hdrop : (Numeral.write n ++ ']' :: r).dropWhile isDecimalDigit = ']' :: r := by
    rw [List.dropWhile_append_of_pos hdigits, List.dropWhile_cons_of_neg (by decide)]
  have hread : readPosition (Numeral.write n) = n := by
    rw [readPosition, Numeral.read?_write]
    exact if_pos h
  obtain ⟨d, ds, hwrite⟩ := List.exists_cons_of_ne_nil (Numeral.write_ne_nil n)
  rw [closedPosition?, htake, hdrop, hwrite]
  show (after? [']'] (']' :: r)).map _ = _
  rw [← hwrite, hread]
  rfl

namespace OutputItem

/-- A token as it stands in a line. -/
def write : OutputItem → List Char
  | text s => '"' :: (s.toList ++ ['"'])
  | var name => '\'' :: (name.toList ++ ['\''])
  | element name position => '[' :: (name.toList ++ ']' :: '[' :: (Numeral.write position ++ [']']))

/-- A token that can be written: its own delimiter does not stand inside it, and a position fits
in 64 bits. -/
def Writable : OutputItem → Prop
  | text s => '"' ∉ s.toList
  | var name => '\'' ∉ name.toList
  | element name position =>
    name ≠ "" ∧ ']' ∉ name.toList ∧ position < 18446744073709551616

/-- A token is read off the front, whatever follows it. -/
theorem token?_write {item : OutputItem} (h : item.Writable) (r : List Char) :
    token? (item.write ++ r) = some (item, r) := by
  cases item with
  | text s =>
    rw [write, List.cons_append, List.append_assoc, token?]
    show (splitAtFirst? _ (s.toList ++ '"' :: r)).map _ = _
    rw [splitAtFirst?_of_not_mem h]
    show some (text (String.ofList s.toList), r) = _
    rw [String.ofList_toList]
  | var name =>
    rw [write, List.cons_append, List.append_assoc, token?]
    show (splitAtFirst? _ (name.toList ++ '\'' :: r)).map _ = _
    rw [splitAtFirst?_of_not_mem h]
    show some (var (String.ofList name.toList), r) = _
    rw [String.ofList_toList]
  | element name position =>
    obtain ⟨hne, hname, hposition⟩ := h
    have hwrite : (element name position).write ++ r =
        '[' :: (name.toList ++ ']' :: '[' :: (Numeral.write position ++ ']' :: r)) := by
      simp [write]
    have hnil : name.toList ≠ [] := fun hnil ↦ hne (String.toList_eq_nil_iff.1 hnil)
    rw [hwrite, token?, splitAtFirst?_of_not_mem hname]
    show (if name.toList = [] then none else _) = _
    rw [if_neg hnil]
    show (closedPosition? (Numeral.write position ++ ']' :: r) >>= _) = _
    rw [closedPosition?_write hposition]
    show some (element (String.ofList name.toList) position, r) = _
    rw [String.ofList_toList]

/-- Tokens side by side are read back. -/
theorem readAll_write {items : List OutputItem} (h : ∀ item ∈ items, item.Writable) :
    readAll (items.flatMap write) = items := by
  induction items with
  | nil => rw [List.flatMap_nil, readAll]
  | cons item items ih =>
    rw [List.flatMap_cons]
    have htoken := token?_write (h item List.mem_cons_self) (items.flatMap write)
    rcases htext : item.write ++ items.flatMap write with - | ⟨c, cs⟩
    · rw [htext] at htoken
      cases htoken
    · rw [htext] at htoken
      rw [readAll_cons_of_some htoken, ih fun item hitem ↦ h item (List.mem_cons_of_mem _ hitem)]

end OutputItem

/-! ### Lines -/

namespace Line

/-- An output line: tokens in parentheses, and the word of output. -/
def outputLine (items : List OutputItem) (newline : Bool) : String :=
  String.ofList ('(' :: (items.flatMap OutputItem.write ++ [')'])) ++ outputWord newline

theorem beforeOutput_parenthesis_eq_none {s : List Char} {r : Rule} (h : r ∈ beforeOutput) :
    r ('(' :: s) = none := by
  -- Each rule fails at its first character, before anything of the rest is looked at.
  revert r
  simp only [beforeOutput, rules, List.take_succ_cons, List.take_zero, List.forall_mem_cons]
  exact ⟨rfl, rfl, rfl, rfl, rfl, rfl, rfl, rfl, rfl, rfl, rfl, rfl, rfl, rfl, rfl, by simp⟩

/-- A line in parentheses, with a word of output behind them, is output with that word. -/
theorem ofChars_parentheses (s : List Char) (newline : Bool) :
    ofChars ('(' :: (s ++ [')']) ++ (outputWord newline).toList) =
      statement (.ofOutput ('(' :: (s ++ [')'])) newline) := by
  have hbefore : beforeOutput.findSome? (· ('(' :: (s ++ [')']) ++ (outputWord newline).toList)) =
      none := List.findSome?_eq_none_iff.2 fun _ h ↦ beforeOutput_parenthesis_eq_none h
  have hword : before? (outputWord newline).toList
      ('(' :: (s ++ [')']) ++ (outputWord newline).toList) = some ('(' :: (s ++ [')'])) :=
    before?_eq_some_iff.2 rfl
  rw [ofChars, rules_eq, List.findSome?_append, hbefore, Option.none_or, List.findSome?_cons,
    List.findSome?_cons, outputRule, outputRule]
  cases newline with
  | true =>
    rw [show before? "쿰척<쿰척".toList _ = _ from hword]
    rfl
  | false =>
    have hlong : before? "쿰척<쿰척".toList
        ('(' :: (s ++ [')']) ++ (outputWord false).toList) = none := by
      rw [before?_eq_none_iff]
      rintro ⟨t, ht⟩
      -- before the shorter word, the longer one has another character
      have hcancel : t ++ "쿰척".toList = '(' :: s ++ [')'] :=
        List.append_cancel_right ((List.append_assoc t "쿰척".toList "<쿰척".toList).trans ht)
      have hlast := congrArg List.getLast? hcancel
      rw [List.getLast?_concat, List.getLast?_append,
        show "쿰척".toList.getLast? = some '척' by decide, Option.some_or] at hlast
      exact absurd (Option.some.inj hlast) (by decide)
    rw [hlong, show before? "<쿰척".toList _ = _ from hword]
    rfl

/-- One pair of parentheses around the tokens is not part of them. -/
theorem ofOutput_parentheses (s : List Char) (newline : Bool) :
    Statement.ofOutput ('(' :: (s ++ [')'])) newline = .output (OutputItem.readAll s) newline := by
  have hinner : before? [')'] (s ++ [')']) = some s := before?_eq_some_iff.2 rfl
  rw [Statement.ofOutput]
  show Statement.output (OutputItem.readAll ((before? [')'] (s ++ [')'])).getD _)) newline = _
  rw [hinner]
  rfl

end Line

/-! ### Running the line -/

/-- What a token writes: its text, the value of a variable, or an item of a list, counted from one.
What is not there is written as `undefined`. -/
inductive OutputItem.Writes (s : Store) : OutputItem → String → Prop
  /-- Text is written as it stands. -/
  | plain (t : String) : Writes s (text t) t
  /-- The value of a variable. -/
  | value {name v} (h : s.lookup? name = some v) : Writes s (var name) v.value.render
  /-- There is no such variable. -/
  | noValue {name} (h : s.lookup? name = none) : Writes s (var name) "undefined"
  /-- The item of a list. -/
  | item {name v xs i x} (h : s.lookup? name = some v) (hlist : v.value = .list xs)
      (hitem : xs.values[i]? = some x) : Writes s (element name (i + 1)) x.render
  /-- The list has no such item. -/
  | noItem {name v xs position} (h : s.lookup? name = some v) (hlist : v.value = .list xs)
      (hitem : position = 0 ∨ xs.values.length < position) :
      Writes s (element name position) "undefined"
  /-- There is no such list. -/
  | noList {name position} (h : ∀ v xs, s.lookup? name = some v → v.value ≠ .list xs) :
      Writes s (element name position) "undefined"

theorem OutputItem.writes_render_element {s : Store} {name : String} {v : Variable} {xs : ItemList}
    (h : s.lookup? name = some v) (hlist : v.value = .list xs) (position : Nat) :
    (element name position).Writes s ((element name position).render s) := by
  have hrender : (element name position).render s =
      ((if position = 0 then none else xs.get? (position - 1)).map Value.render).getD
        "undefined" := by
    obtain ⟨value, tag, shielded⟩ := v
    cases hlist
    simp only [render, h]
    cases (if position = 0 then none else xs.get? (position - 1)) <;> rfl
  rw [hrender]
  cases position with
  | zero => exact .noItem h hlist (.inl rfl)
  | succ i =>
    rw [if_neg i.succ_ne_zero, ItemList.get?_eq, Nat.add_sub_cancel]
    cases hitem : xs.values[i]? with
    | none =>
      exact .noItem h hlist (.inr (Nat.lt_succ_of_le (List.getElem?_eq_none_iff.1 hitem)))
    | some x => exact .item h hlist hitem

theorem OutputItem.writes_render (s : Store) (item : OutputItem) :
    item.Writes s (item.render s) := by
  cases item with
  | text t => exact .plain t
  | var name =>
    rw [render]
    cases h : s.lookup? name with
    | none => exact .noValue h
    | some v => exact .value h
  | element name position =>
    by_cases hlist : ∃ v xs, s.lookup? name = some v ∧ v.value = .list xs
    · obtain ⟨v, xs, h, hlist⟩ := hlist
      exact writes_render_element h hlist position
    · have hrender : (element name position).render s = "undefined" := by
        rw [render]
        split
        · next h => exact absurd ⟨_, _, h, rfl⟩ hlist
        · rfl
      rw [hrender]
      exact .noList fun v xs h hvalue ↦ hlist ⟨v, xs, h, hvalue⟩

/-- Noting text writes it behind what was written before. -/
theorem Console.output_note (c : Console) (s : String) :
    (c.note (.output s)).output = c.output ++ s := by
  simp [Console.output, note, Event.output?]

/-- Running output writes what the tokens stand for, one behind the other, and changes nothing but
what is written. -/
theorem Tree.run_output (call : Callee) (id : Nat) (line : SourceLine) (items : List OutputItem)
    (newline : Bool) (m : Machine) :
    ∃ console texts, (Tree.statement id line (.output items newline)).run call m =
        .ok .next { m with console } ∧
      List.Forall₂ (OutputItem.Writes m.store) items texts ∧
      console.output = m.console.output ++ String.join texts ++ (if newline then "\n" else "") ∧
      console.input = m.console.input := by
  refine ⟨_, items.map (OutputItem.render m.store), rfl, ?_, ?_, rfl⟩
  · exact List.forall₂_map_right_iff.2
      (List.forall₂_same.2 fun item _ ↦ item.writes_render m.store)
  · rw [Console.output_note, String.append_assoc]
    cases newline with
    | true => rfl
    | false => exact congrArg (m.console.output ++ ·) (String.append_empty.symm)

namespace Line

/-- What is written as output is read back, and writes what it should. For tokens of all kinds,
whatever they hold besides their own delimiters and however many there are, the line is the output
of exactly these tokens, with the line feed that its word asks for. Running it writes the texts and
the values of the variables and items, in this order, and changes nothing else. -/
theorem ofString_outputLine (items : List OutputItem) (h : ∀ item ∈ items, item.Writable)
    (newline : Bool) :
    ofString (outputLine items newline) = .statement (.output items newline) ∧
    ∀ (call : Callee) (id : Nat) (line : SourceLine) (m : Machine),
      ∃ console texts, (Tree.statement id line (.output items newline)).run call m =
          .ok .next { m with console } ∧
        List.Forall₂ (OutputItem.Writes m.store) items texts ∧
        console.output = m.console.output ++ String.join texts ++ (if newline then "\n" else "") ∧
        console.input = m.console.input := by
  refine ⟨?_, fun call id line m ↦ Tree.run_output call id line items newline m⟩
  have htext : (outputLine items newline).toList =
      '(' :: (items.flatMap OutputItem.write ++ [')']) ++ (outputWord newline).toList := by
    rw [outputLine, String.toList_append, String.toList_ofList]
  rw [ofString, htext, ofChars_parentheses, ofOutput_parentheses, OutputItem.readAll_write h]

/-- Tokens that hold the delimiters of the others, and the word of output. -/
theorem ofString_outputLine_delimiters :
    let items : List OutputItem :=
      [.text "'b'[xs][2])쿰척<쿰척", .var "(\"a\"", .element "[\"x'" 18446744073709551615, .text ""]
    (∀ item ∈ items, item.Writable) ∧
      outputLine items false =
        "(\"'b'[xs][2])쿰척<쿰척\"'(\"a\"'[[\"x'][18446744073709551615]\"\")<쿰척" ∧
      ofString (outputLine items false) = .statement (.output items false) := by
  intro items
  have hitems : ∀ item ∈ items, item.Writable := by
    simp [items, OutputItem.Writable]
  exact ⟨hitems, by decide, (ofString_outputLine items hitems false).1⟩

end Line

end Haklang

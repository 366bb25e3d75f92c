import Haklang.Proofs.Action.Respects
import Haklang.Proofs.Expr.RoundTrip
import Haklang.Proofs.Line.Name

/-!
# Literals in assignments

A line that assigns a literal is a name in brackets, a word, and a text between quotes. The rule for
increments is tried before, and it has no notion of quotes: it takes for the name whatever stands
before the first place where a closing bracket is followed by its own word, also when that place is
inside the literal. All other rules that are tried before do not fit. So the line is the assignment
that it looks like unless the text holds the word of increments behind a closing bracket, and then
it is an increment of a variable with a strange name (`ofString_literal`).
-/

namespace Haklang

open Text

namespace Line

/-- The assignment of a text in single quotes, as a line. -/
def textLine (n s : String) : String := "[" ++ n ++ "]쩝쩝<'" ++ s ++ "'"

/-- The assignment of a text in double quotes, as a line. -/
def quotedLine (n s : String) : String := "[" ++ n ++ "]꿀떡<\"" ++ s ++ "\""

/-- What is in front of the keyword of an increment, behind the name. -/
def incrementWord : List Char := "]꿀꺽<".toList

/-! ### Places of a word -/

/-- A word stands in a text between two parts, and nowhere before. -/
structure IsFirst (w s u v : List Char) : Prop where
  /-- The text is the word between the parts. -/
  eq : s = u ++ (w ++ v)
  /-- The word stands at no place that is inside the first part. -/
  not_prefix : ∀ x y, u = x ++ y → y ≠ [] → ¬ w <+: y ++ (w ++ v)

/-- A word that is part of a text has a first place in it. -/
theorem exists_isFirst {w s : List Char} (h : w <:+: s) : ∃ u v, IsFirst w s u v := by
  induction s with
  | nil =>
    obtain rfl := List.infix_nil.1 h
    exact ⟨[], [], rfl, fun x y hxy hy ↦ absurd (List.append_eq_nil_iff.1 hxy.symm).2 hy⟩
  | cons c s ih =>
    by_cases hhead : w <+: c :: s
    · obtain ⟨v, hv⟩ := hhead
      exact ⟨[], v, hv.symm, fun x y hxy hy ↦ absurd (List.append_eq_nil_iff.1 hxy.symm).2 hy⟩
    · obtain ⟨u, v, rfl, hfirst⟩ := ih ((List.infix_cons_iff.1 h).resolve_left hhead)
      refine ⟨c :: u, v, rfl, fun x y hxy hy ↦ ?_⟩
      rcases x with - | ⟨d, x⟩
      · obtain rfl : y = c :: u := hxy.symm
        exact hhead
      · exact hfirst x y (List.cons.inj hxy).2 hy

/-- A character that a first part does not have stands behind that part. -/
theorem exists_eq_append_of_not_mem {a b x y : List Char} {c : Char} (hc : c ∉ a)
    (h : a ++ b = x ++ c :: y) : ∃ u, x = a ++ u ∧ b = u ++ c :: y := by
  induction a generalizing x with
  | nil => exact ⟨x, rfl, h⟩
  | cons d a ih =>
    rw [List.mem_cons, not_or] at hc
    rcases x with - | ⟨e, x⟩
    · exact absurd (List.cons.inj h).1.symm hc.1
    · obtain ⟨rfl, htail⟩ := List.cons.inj h
      obtain ⟨u, rfl, rfl⟩ := ih hc.2 htail
      exact ⟨u, rfl, rfl⟩

/-- A text that does not end a word does not take part in it. -/
theorem isInfix_of_isInfix_concat {w s : List Char} {c : Char} (hc : c ∉ w)
    (h : w <:+: s ++ [c]) : w <:+: s := by
  obtain ⟨u, v, h⟩ := h
  rcases v.eq_nil_or_concat with rfl | ⟨v, d, rfl⟩
  · rw [List.append_nil] at h
    have hlast : (u ++ w).getLast? = some c := by rw [h, List.getLast?_concat]
    rcases w.eq_nil_or_concat with rfl | ⟨w, e, rfl⟩
    · exact List.nil_infix
    · rw [List.concat_eq_append, ← List.append_assoc, List.getLast?_concat] at hlast
      obtain rfl := Option.some.inj hlast
      exact absurd (by simp) hc
  · rw [List.concat_eq_append, ← List.append_assoc] at h
    exact ⟨u, v, (List.append_inj' h rfl).1⟩

/-! ### The rule for increments -/

/-- What stands behind the bracket of a line that assigns a literal: a word that is not the one of
increments, and a quote. -/
structure IsOpening (w : List Char) (q : Char) : Prop where
  /-- There is no closing bracket in it. -/
  closer_not_mem : ']' ∉ w ++ [q]
  /-- There is no line feed in it. -/
  lineFeed_not_mem : '\n' ∉ w ++ [q]
  /-- The quote is not part of the word of increments. -/
  quote_not_mem : q ∉ incrementWord
  /-- It does not start with the word of increments. -/
  not_prefix : ¬ "꿀꺽<".toList <+: w ++ [q]
  /-- It is no shorter than that word. -/
  length_le : "꿀꺽<".toList.length ≤ (w ++ [q]).length

/-- The word that assigns text opens its quote. -/
theorem isOpening_text : IsOpening "쩝쩝<".toList '\'' := by constructor <;> decide

/-- The word that assigns a value opens a quoted text. -/
theorem isOpening_quoted : IsOpening "꿀떡<".toList '"' := by constructor <;> decide

section Increment

variable {n s w : List Char} {q : Char}

/-- Behind a closing bracket in a line that assigns a literal, the word of increments can only
stand inside the literal. -/
theorem exists_place (hn : IsName n) (hw : IsOpening w q) {x r : List Char}
    (h : n ++ ']' :: (w ++ [q] ++ s) = x ++ ']' :: r) (hr : "꿀꺽<".toList <+: r) :
    ∃ u, x = n ++ ']' :: (w ++ [q] ++ u) ∧ s = u ++ ']' :: r := by
  obtain ⟨_ | ⟨c, u⟩, rfl, hu⟩ := exists_eq_append_of_not_mem hn.closer_not_mem h
  · -- the bracket behind the name is followed by another word
    obtain ⟨-, rfl⟩ := List.cons.inj hu
    have hprefix := List.prefix_of_prefix_length_le hr (List.prefix_append _ _) hw.length_le
    exact absurd hprefix hw.not_prefix
  · obtain ⟨rfl, htail⟩ := List.cons.inj hu
    obtain ⟨u, rfl, rfl⟩ := exists_eq_append_of_not_mem hw.closer_not_mem htail
    exact ⟨u, rfl, rfl⟩

/-- What the rule for increments accepts behind the bracket of a name. -/
def increment? (r : List Char) : Option (List Char) := after? "꿀꺽<".toList r >>= restOfLine

/-- Without the word for increments there is none. -/
theorem increment?_eq_none {r : List Char} (h : ¬ "꿀꺽<".toList <+: r) : increment? r = none := by
  rw [increment?, after?_eq_none_iff.2 h]
  rfl

/-- Behind the word there is the amount, up to the end of the line. -/
theorem increment?_append {r : List Char} (hne : r ≠ []) (hline : '\n' ∉ r) :
    increment? ("꿀꺽<".toList ++ r) = some r := by
  rw [increment?, after?_append]
  exact restOfLine_of_not_mem hne hline

/-- The rule for increments does not fit if its word is not in the literal. -/
theorem incrementRule_eq_none (hn : IsName n) (hw : IsOpening w q)
    (h : ¬ incrementWord <:+: s) :
    incrementRule ('[' :: (n ++ ']' :: (w ++ [q] ++ (s ++ [q])))) = none := by
  have hnone : bracketed increment? ('[' :: (n ++ ']' :: (w ++ [q] ++ (s ++ [q])))) = none := by
    refine bracketed_eq_none fun x r hx ↦ increment?_eq_none fun hr ↦ h ?_
    obtain ⟨u, -, hs⟩ := exists_place hn hw hx hr
    obtain ⟨v, rfl⟩ := hr
    refine isInfix_of_isInfix_concat hw.quote_not_mem ⟨u, v, ?_⟩
    rw [hs, List.append_assoc]
    rfl
  rw [incrementRule]
  show (variableName increment? _ >>= _) = none
  rw [variableName_eq_bracketed hn, hnone]
  rfl

/-- The rule for increments takes for the name what stands before the first place of its word in
the literal. -/
theorem incrementRule_of_isFirst (hn : IsName n) (hw : IsOpening w q) (hline : '\n' ∉ s)
    {u v : List Char} (hfirst : IsFirst incrementWord s u v) :
    incrementRule ('[' :: (n ++ ']' :: (w ++ [q] ++ (s ++ [q])))) =
      some (statement
        (.increment (String.ofList (n ++ ']' :: (w ++ [q] ++ u))) (part (v ++ [q])))) := by
  obtain ⟨rfl, hfirst⟩ := hfirst
  simp only [List.mem_append, not_or] at hline
  have hquote : '\n' ∉ [q] := fun h ↦ hw.lineFeed_not_mem (List.mem_append_right w h)
  have hname : '\n' ∉ n ++ ']' :: (w ++ [q] ++ u) := by
    have hopening := hw.lineFeed_not_mem
    simp only [List.mem_append, List.mem_cons, not_or] at hopening ⊢
    exact ⟨hn.lineFeed_not_mem, by decide, hopening, hline.1⟩
  have hsome : bracketed increment?
      ('[' :: ((n ++ ']' :: (w ++ [q] ++ u)) ++ ']' :: ("꿀꺽<".toList ++ (v ++ [q])))) =
      some (String.ofList (n ++ ']' :: (w ++ [q] ++ u)), v ++ [q]) := by
    have hrest : '\n' ∉ v ++ [q] := by
      rw [List.mem_append, not_or]
      exact ⟨hline.2.2, hquote⟩
    refine bracketed_of_first (by simp) hname (increment?_append (by simp) hrest) fun x y hxy ↦ ?_
    -- a bracket in the name before which the word stands would be an earlier place
    refine increment?_eq_none fun hr ↦ ?_
    obtain ⟨x, rfl, -⟩ := exists_place hn hw
      (r := y ++ ']' :: ("꿀꺽<".toList ++ (v ++ [q])))
      (s := u ++ ']' :: ("꿀꺽<".toList ++ (v ++ [q])))
      (by simpa using congrArg (· ++ ']' :: ("꿀꺽<".toList ++ (v ++ [q]))) hxy) hr
    have hu : u = x ++ ']' :: y := by simpa using hxy
    have hlong : incrementWord <+: (']' :: y ++ (incrementWord ++ v)) ++ [q] := by
      obtain ⟨t, ht⟩ := hr
      exact ⟨t, by simpa [incrementWord] using ht⟩
    refine hfirst x (']' :: y) hu (List.cons_ne_nil _ _) ?_
    refine List.prefix_of_prefix_length_le hlong (List.prefix_append _ _) ?_
    simp only [List.length_append]
    omega
  have hsplit : '[' :: (n ++ ']' :: (w ++ [q] ++ (u ++ (incrementWord ++ v) ++ [q]))) =
      '[' :: ((n ++ ']' :: (w ++ [q] ++ u)) ++ ']' :: ("꿀꺽<".toList ++ (v ++ [q]))) := by
    simp [incrementWord]
  rw [incrementRule]
  show (variableName increment? _ >>= _) = _
  rw [variableName_eq_bracketed hn, hsplit, hsome]
  rfl

end Increment

/-! ### The rules in order -/

/-- Of the rules before the one for increments, none fits a line that starts with a bracket. -/
theorem ofChars_bracket (s : List Char) :
    ofChars ('[' :: s) = ((rules.drop 9).findSome? (· ('[' :: s))).getD
      (statement (.unknown (String.ofList ('[' :: s)))) := by
  have hfirst : (rules.take 9).findSome? (· ('[' :: s)) = none := by
    rw [List.findSome?_eq_none_iff]
    simp only [rules, List.take_succ_cons, List.take_zero, List.forall_mem_cons]
    exact ⟨rfl, rfl, rfl, rfl, rfl, rfl, rfl, rfl, rfl, by simp⟩
  rw [ofChars, ← List.take_append_drop 9 rules, List.findSome?_append, hfirst, Option.none_or]
  rfl

/-- The rules that are left when those before increments have been tried. -/
theorem rules_drop :
    rules.drop 9 = incrementRule :: assignTextRule :: assignRule :: rules.drop 12 := rfl

section Rules

variable {n s : List Char}

/-- What is read at the end of a line leaves nothing behind it. -/
theorem eq_of_atEnd? {w r : List Char} {a : Unit} (h : (after? w r >>= atEnd?) = some a) :
    r = w := by
  rcases hr : after? w r with - | ⟨- | ⟨c, t⟩⟩
  · rw [hr] at h
    cases h
  · rw [after?_eq_some_iff.1 hr, List.append_nil]
  · rw [hr] at h
    cases h

/-- The rule for text in single quotes takes what stands between the quotes. -/
theorem assignTextRule_eq (hn : IsName n) (hline : '\n' ∉ s) :
    assignTextRule ('[' :: (n ++ ']' :: ("쩝쩝<".toList ++ ['\''] ++ (s ++ ['\''])))) =
      some (statement (.assignText (String.ofList n) (String.ofList s))) := by
  have hrun : longestRun (fun r ↦ after? ['\''] r >>= atEnd?) (s ++ ['\'']) = some (s, ()) :=
    longestRun_append hline rfl
  have hsome : variableName (fun r ↦
      after? "쩝쩝<'".toList r >>= longestRun fun r ↦ after? ['\''] r >>= atEnd?)
      ('[' :: (n ++ ']' :: ("쩝쩝<'".toList ++ (s ++ ['\''])))) = some (String.ofList n, s, ()) := by
    refine variableName_of_isName hn ?_
    rw [after?_append]
    exact hrun
  rw [assignTextRule]
  show (variableName _ ('[' :: (n ++ ']' :: ("쩝쩝<'".toList ++ (s ++ ['\''])))) >>= _) = _
  rw [hsome]
  rfl

/-- The rule for text in single quotes does not fit a line that ends with a double quote. -/
theorem assignTextRule_eq_none (hn : IsName n) {r : List Char} :
    assignTextRule ('[' :: (n ++ (r ++ ['"']))) = none := by
  have hnone : bracketed (fun r ↦
      after? "쩝쩝<'".toList r >>= longestRun fun r ↦ after? ['\''] r >>= atEnd?)
      ('[' :: (n ++ (r ++ ['"']))) = none := by
    refine bracketed_eq_none fun u v huv ↦ ?_
    rcases hv : after? "쩝쩝<'".toList v with - | t
    · rfl
    show longestRun _ t = none
    rcases hrun : longestRun (fun r ↦ after? ['\''] r >>= atEnd?) t with - | ⟨a, b⟩
    · rfl
    -- what is accepted ends with a single quote
    obtain ⟨e, rfl, he, -⟩ := longestRun_eq_some hrun
    obtain rfl : e = ['\''] := eq_of_atEnd? he
    have hlast := congrArg List.getLast? huv
    rw [after?_eq_some_iff.1 hv] at hlast
    simp [List.getLast?_append, List.getLast?_cons] at hlast
  rw [assignTextRule]
  show (variableName _ _ >>= _) = none
  rw [variableName_eq_bracketed hn, hnone]
  rfl

/-- The rule for expressions reads the quoted text as a text. -/
theorem assignRule_eq (hn : IsName n) (hline : '\n' ∉ s) (hquote : '"' ∉ s) :
    assignRule ('[' :: (n ++ ']' :: ("꿀떡<".toList ++ ['"'] ++ (s ++ ['"'])))) =
      some (statement (.assign (String.ofList n) (.text (String.ofList s)))) := by
  have hread : Expr.ofChars ('"' :: (s ++ ['"'])) = .text (String.ofList s) := by
    have hcanonical : Expr.Canonical (.text (String.ofList s)) := .text (by simpa using hquote)
    simpa [Expr.write, Expr.withPlaces] using hcanonical.ofChars_write
  have hsome : variableName (fun r ↦ after? "꿀떡<".toList r >>= restOfLine)
      ('[' :: (n ++ ']' :: ("꿀떡<".toList ++ ('"' :: (s ++ ['"']))))) =
      some (String.ofList n, '"' :: (s ++ ['"'])) := by
    refine variableName_of_isName hn ?_
    rw [after?_append]
    exact restOfLine_of_not_mem (List.cons_ne_nil '"' (s ++ ['"'])) (by simp [hline])
  rw [assignRule]
  show (variableName _ ('[' :: (n ++ ']' :: ("꿀떡<".toList ++ ('"' :: (s ++ ['"']))))) >>= _) = _
  rw [hsome]
  show some (statement (.assign _ (Expr.ofChars _))) = _
  rw [hread]

end Rules

/-! ### Lines -/

section Lines

variable {n s : String}

/-- The line that assigns text, as characters. -/
theorem toList_textLine (n s : String) :
    (textLine n s).toList =
      '[' :: (n.toList ++ ']' :: ("쩝쩝<".toList ++ ['\''] ++ (s.toList ++ ['\'']))) := by
  simp [textLine]

/-- The line that assigns a quoted text, as characters. -/
theorem toList_quotedLine (n s : String) :
    (quotedLine n s).toList =
      '[' :: (n.toList ++ ']' :: ("꿀떡<".toList ++ ['"'] ++ (s.toList ++ ['"']))) := by
  simp [quotedLine]

/-- A text without the word for increments is assigned as it is. -/
theorem ofString_textLine (hn : IsName n.toList) (hline : '\n' ∉ s.toList)
    (h : ¬ incrementWord <:+: s.toList) :
    ofString (textLine n s) = .statement (.assignText n s) := by
  rw [ofString, toList_textLine, ofChars_bracket, rules_drop, List.findSome?_cons,
    incrementRule_eq_none hn isOpening_text h]
  show ((assignTextRule :: assignRule :: rules.drop 12).findSome? _).getD _ = _
  rw [List.findSome?_cons, assignTextRule_eq hn hline, String.ofList_toList, String.ofList_toList]
  rfl

/-- A quoted text without that word is assigned as it is. -/
theorem ofString_quotedLine (hn : IsName n.toList) (hline : '\n' ∉ s.toList)
    (hquote : '"' ∉ s.toList) (h : ¬ incrementWord <:+: s.toList) :
    ofString (quotedLine n s) = .statement (.assign n (.text s)) := by
  have hnone : assignTextRule
      ('[' :: (n.toList ++ ']' :: ("꿀떡<".toList ++ ['"'] ++ (s.toList ++ ['"'])))) = none := by
    have hshape := assignTextRule_eq_none hn (r := ']' :: ("꿀떡<".toList ++ ['"'] ++ s.toList))
    rwa [List.cons_append, List.append_assoc] at hshape
  rw [ofString, toList_quotedLine, ofChars_bracket, rules_drop, List.findSome?_cons,
    incrementRule_eq_none hn isOpening_quoted h]
  show ((assignTextRule :: assignRule :: rules.drop 12).findSome? _).getD _ = _
  rw [List.findSome?_cons, hnone]
  show ((assignRule :: rules.drop 12).findSome? _).getD _ = _
  rw [List.findSome?_cons, assignRule_eq hn hline hquote, String.ofList_toList,
    String.ofList_toList]
  rfl

/-- Behind a name and an opening, a literal with the word of increments makes the line an
increment: the name goes up to the first place of that word, and the keyword is what follows it. -/
theorem ofChars_of_isFirst {w cs u v : List Char} {q : Char} (hn : IsName n.toList)
    (hw : IsOpening w q) (hline : '\n' ∉ s.toList)
    (hcs : cs = '[' :: (n.toList ++ ']' :: (w ++ [q] ++ (s.toList ++ [q]))))
    (hfirst : IsFirst incrementWord s.toList u v) :
    ofChars cs = .statement (.increment
      (String.ofList (n.toList ++ ']' :: (w ++ [q] ++ u))) (part (v ++ [q]))) := by
  rw [hcs, ofChars_bracket, rules_drop, List.findSome?_cons,
    incrementRule_of_isFirst hn hw hline hfirst]
  rfl

end Lines

end Line

/-! ### Running the assignment -/

section Run

open Haklang.Action

variable {m : Machine} {n : String} {v : Variable}

/-- A text variable takes a text as it is. -/
theorem Store.assign_text {store : Store} (hv : store.lookup? n = some v)
    (ht : v.tag = .item .text) (s : String) :
    store.assign n (.text s) = (.ok (), store.put n { v with value := .text s }) := by
  rw [assign, hv]
  refine Store.update_of_ok hv ?_
  rw [ht]
  rfl

/-- Either assignment of a literal to a text variable stores the literal. -/
theorem Tree.run_literal (call : Callee) (s : String) (hv : m.store.lookup? n = some v)
    (ht : v.tag = .item .text) {st : Statement}
    (hst : st = .assignText n s ∨ st = .assign n (.text s)) (id : Nat) (line : SourceLine) :
    (Tree.statement id line st).run call m =
      .ok .next { m with store := m.store.put n { v with value := .text s } } := by
  have hchange : change (·.assign n (.text s)) m =
      .ok () { m with store := m.store.put n { v with value := .text s } } :=
    change_of_ok (Store.assign_text hv ht s)
  have hrun := bind_of_ok hchange fun _ ↦ (pure Signal.next : Action Signal)
  rw [Tree.run]
  refine within_of_ok ?_ line
  rcases hst with rfl | rfl
  · exact hrun
  · exact hrun

/-- The output of a text variable writes its text. -/
theorem Tree.run_output_var (call : Callee) {s : String}
    (hv : m.store.lookup? n = some { v with value := .text s }) (id : Nat) (line : SourceLine)
    (newline : Bool) :
    (Tree.statement id line (.output [.var n] newline)).run call m =
      .ok .next { m with
        console := m.console.note (.output (if newline then s ++ "\n" else s)) } := by
  have hrender : String.join ([OutputItem.var n].map (OutputItem.render m.store)) = s := by
    simp [OutputItem.render, hv, Value.render]
  rw [Tree.run]
  refine within_of_ok ?_ line
  show EStateM.Result.ok Signal.next _ = _
  rw [hrender]

end Run

/-! ### Literals -/

namespace Line

open Haklang.Action

/-- A line that assigns a literal to a plain name is the assignment of exactly this text, unless the
text holds the word of increments behind a closing bracket; then it is an increment, of what stands
before that word by what stands behind it. The assignment to a text variable, by either form, and
then the output of the variable write exactly the text. -/
theorem ofString_literal {n s : String} (hn : IsName n.toList) (hline : '\n' ∉ s.toList) :
    (¬ incrementWord <:+: s.toList →
      ofString (textLine n s) = .statement (.assignText n s) ∧
      ('"' ∉ s.toList → ofString (quotedLine n s) = .statement (.assign n (.text s)))) ∧
    (incrementWord <:+: s.toList → ∃ u v, IsFirst incrementWord s.toList u v ∧
      ofString (textLine n s) = .statement
        (.increment (String.ofList (n.toList ++ ("]쩝쩝<'".toList ++ u))) (part (v ++ ['\'']))) ∧
      ('"' ∉ s.toList → ofString (quotedLine n s) = .statement
        (.increment (String.ofList (n.toList ++ ("]꿀떡<\"".toList ++ u))) (part (v ++ ['"']))))) ∧
    ∀ (call : Callee) (m : Machine) (v : Variable), m.store.lookup? n = some v →
      v.tag = .item .text → ∀ st, st = .assignText n s ∨ st = .assign n (.text s) →
      ∀ (id id' : Nat) (line line' : SourceLine) (newline : Bool),
        Tree.runAll call
            [.statement id line st, .statement id' line' (.output [.var n] newline)] m =
          .ok .next { m with
            store := m.store.put n { v with value := .text s }
            console := m.console.note (.output (if newline then s ++ "\n" else s)) } := by
  refine ⟨fun h ↦ ?_, fun h ↦ ?_, fun call m v hv ht st hst id id' line line' newline ↦ ?_⟩
  · exact ⟨ofString_textLine hn hline h, fun hquote ↦ ofString_quotedLine hn hline hquote h⟩
  · obtain ⟨u, v, hfirst⟩ := exists_isFirst h
    exact ⟨u, v, hfirst,
      ofChars_of_isFirst hn isOpening_text hline (toList_textLine n s) hfirst,
      fun _ ↦ ofChars_of_isFirst hn isOpening_quoted hline (toList_quotedLine n s) hfirst⟩
  · -- the output finds the variable as the assignment has left it
    have hstored : (m.store.put n { v with value := .text s }).lookup? n =
        some { v with value := .text s } := by
      rw [Store.lookup?_put, if_pos rfl]
    have houtput := Tree.run_output_var call
      (m := { m with store := m.store.put n { v with value := .text s } }) hstored id' line' newline
    rw [Tree.runAll, bind_of_ok (Tree.run_literal call s hv ht hst id line)]
    show (Tree.runAll call [_] : Action Signal) _ = _
    rw [Tree.runAll, bind_of_ok houtput]
    rfl

/-- A literal with brackets and with the words of both assignments stays a literal. -/
theorem ofString_literal_assignments :
    IsName "b".toList ∧ '\n' ∉ "]쩝쩝<'x]꿀떡<".toList ∧
    ¬ incrementWord <:+: "]쩝쩝<'x]꿀떡<".toList ∧
    ofString (textLine "b" "]쩝쩝<'x]꿀떡<") = .statement (.assignText "b" "]쩝쩝<'x]꿀떡<") := by
  have hname : IsName "b".toList := ⟨by decide, List.forall_mem_singleton.2 (by decide)⟩
  have hline : '\n' ∉ "]쩝쩝<'x]꿀떡<".toList := by simp
  have hword : ¬ incrementWord <:+: "]쩝쩝<'x]꿀떡<".toList := fun h ↦
    absurd (h.subset (show '꺽' ∈ incrementWord by decide)) (by decide)
  exact ⟨hname, hline, hword, ((ofString_literal hname hline).1 hword).1⟩

/-- With the word of increments in the literal, the line is an increment. -/
theorem ofString_literal_increment :
    ofString (textLine "a" "x]꿀꺽<밥") = .statement (.increment "a]쩝쩝<'x" "밥'") ∧
    ofString (quotedLine "a" "x]꿀꺽<밥") = .statement (.increment "a]꿀떡<\"x" "밥\"") := by
  have hname : IsName "a".toList := ⟨by decide, List.forall_mem_singleton.2 (by decide)⟩
  have hline : '\n' ∉ "x]꿀꺽<밥".toList := by simp
  have hfirst : IsFirst incrementWord "x]꿀꺽<밥".toList ['x'] ['밥'] := by
    refine ⟨by decide, fun x y hxy hy ↦ ?_⟩
    have hx : y = ['x'] := by
      rcases x with - | ⟨c, x⟩
      · exact hxy.symm
      · exact absurd (List.append_eq_nil_iff.1 (List.cons.inj hxy).2.symm).2 hy
    rw [hx]
    decide
  have htext := ofChars_of_isFirst hname isOpening_text hline (toList_textLine _ _) hfirst
  have hquoted := ofChars_of_isFirst hname isOpening_quoted hline (toList_quotedLine _ _) hfirst
  have hname₁ : String.ofList ("a".toList ++ ']' :: ("쩝쩝<".toList ++ ['\''] ++ ['x'])) =
      "a]쩝쩝<'x" := by decide
  have hname₂ : String.ofList ("a".toList ++ ']' :: ("꿀떡<".toList ++ ['"'] ++ ['x'])) =
      "a]꿀떡<\"x" := by decide
  have hkeyword₁ : part (['밥'] ++ ['\'']) = "밥'" := by decide
  have hkeyword₂ : part (['밥'] ++ ['"']) = "밥\"" := by decide
  rw [hname₁, hkeyword₁] at htext
  rw [hname₂, hkeyword₂] at hquoted
  exact ⟨htext, hquoted⟩

end Line

end Haklang

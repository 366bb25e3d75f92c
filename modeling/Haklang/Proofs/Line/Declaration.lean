import Haklang.Proofs.Line.Comment
import Haklang.Proofs.Line.Literal
import Haklang.Proofs.Store.Snapshots

/-!
# Declarations

A type is written as it stands in a declaration, so a type, a name in brackets and possibly the word
that shields the variable make a line. There is one rule for each type that is no list, and one for
all lists, which takes the kind of items from what stands in the inner brackets. The spellings of
the types are told apart before they end (`after?_render_eq_none`), so what is tried earlier does
not fit, and the line declares the variable, whatever follows it (`ofChars_declaration`).

Lists of text are the exception. Their items are spelled by nothing at all, while the rule for lists
wants something in the inner brackets, which it would take for text whatever it is. It goes on to
look for later closing brackets of that kind and finds none, so the line is not recognized
(`ofChars_texts`).
-/

namespace Haklang

open Text

namespace Line

/-- The word at the end of the declaration of a shielded variable. -/
def shieldWord (shielded : Bool) : String := if shielded then "포자맨" else ""

/-- The declaration of a variable, as a line. -/
def declarationLine (tag : TypeTag) (name : String) (shielded : Bool) : String :=
  tag.render ++ "[" ++ name ++ "]" ++ shieldWord shielded

/-! ### The rules for declarations -/

section Rules

variable {n r : List Char} {t : ItemType} {tag : TypeTag}

/-- The spelling of a type that is no list does not start any other spelling. -/
theorem after?_render_eq_none (h : tag ≠ .item t) (r : List Char) :
    after? (TypeTag.item t).render.toList (tag.render.toList ++ r) = none := by
  rcases t with _ | (_ | _) | _ <;> rcases tag with (_ | (_ | _) | _) | (_ | (_ | _) | _) <;>
    first | exact absurd rfl h | rfl

theorem declareRule_eq_none (h : tag ≠ .item t) (r : List Char) :
    declareRule t (tag.render.toList ++ r) = none := by
  rw [declareRule, after?_render_eq_none h]
  rfl

/-- Behind the type, a plain name is taken, and then the word that shields. -/
theorem variableName_shield? (hn : IsName n) (r : List Char) :
    variableName shield? ('[' :: (n ++ ']' :: r)) =
      some (String.ofList n, (after? "포자맨".toList r).isSome) :=
  variableName_of_isName hn rfl

/-- The rule for a type that is no list reads a declaration of that type. -/
theorem declareRule_eq (hn : IsName n) (t : ItemType) (r : List Char) :
    declareRule t ((TypeTag.item t).render.toList ++ '[' :: (n ++ ']' :: r)) =
      some (statement
        (.declare (String.ofList n) (.item t) (after? "포자맨".toList r).isSome)) := by
  rw [declareRule, after?_append]
  show (variableName shield? _ >>= _) = _
  rw [variableName_shield? hn]
  rfl

theorem toList_render_list (t : ItemType) :
    (TypeTag.list t).render.toList =
      "\x7bBMI[".toList ++ (t.spelling.toList ++ "]\x7d".toList) := by
  rw [TypeTag.render, String.toList_append, String.toList_append, List.append_assoc]

/-- The rule for lists takes the kind of items from what stands in the inner brackets, if anything
stands there. -/
theorem declareListRule_eq {s : List Char} (hs : s ≠ []) (hcloser : ']' ∉ s) (hline : '\n' ∉ s)
    (hn : IsName n) (r : List Char) :
    declareListRule ("\x7bBMI[".toList ++ (s ++ ("]\x7d".toList ++ '[' :: (n ++ ']' :: r)))) =
      some (statement (.declare (String.ofList n) (.list (.ofSpelling (String.ofList s)))
        (after? "포자맨".toList r).isSome)) := by
  have hrun : shortestRun (fun r ↦ after? "]\x7d".toList r >>= variableName shield?)
      (s ++ ("]\x7d".toList ++ '[' :: (n ++ ']' :: r))) =
      some (s, String.ofList n, (after? "포자맨".toList r).isSome) := by
    refine shortestRun_append hs hline ?_ fun u v huv _ hv ↦ ?_
    · rw [after?_append]
      exact variableName_shield? hn r
    · obtain ⟨c, v, rfl⟩ := List.exists_cons_of_ne_nil hv
      have hc : ']' ≠ c := by
        rintro rfl
        exact hcloser (huv ▸ List.mem_append_right u List.mem_cons_self)
      show ((if ']' = c then after? ['\x7d'] _ else none) >>= _) = none
      rw [if_neg hc]
      rfl
  rw [declareListRule, after?_append]
  show (shortestRun _ _ >>= _) = _
  rw [hrun]
  rfl

/-- The rule for lists does not fit if nothing stands in the inner brackets. -/
theorem declareListRule_eq_none (hn : IsName n) (hr : '\x7d' ∉ r) :
    declareListRule ((TypeTag.list .text).render.toList ++ '[' :: (n ++ ']' :: r)) = none := by
  have hname : ']' ∉ '\x7d' :: '[' :: n := by
    simp only [List.mem_cons, not_or]
    exact ⟨by decide, by decide, hn.closer_not_mem⟩
  -- The first closing bracket is taken for an item, and the one behind the name stands alone.
  have hrun : shortestRun (fun r ↦ after? "]\x7d".toList r >>= variableName shield?)
      ('\x7d' :: '[' :: (n ++ ']' :: r)) = none := by
    refine shortestRun_eq_none fun u v huv ↦ ?_
    rcases hv : after? "]\x7d".toList v with - | w
    · rfl
    rw [after?_eq_some_iff.1 hv] at huv
    obtain ⟨_ | ⟨c, u⟩, -, hu⟩ :=
      exists_eq_append_of_not_mem (b := ']' :: r) (y := '\x7d' :: w) hname huv
    · obtain ⟨-, rfl⟩ := List.cons.inj hu
      exact absurd List.mem_cons_self hr
    · obtain ⟨-, rfl⟩ := List.cons.inj hu
      exact absurd (List.mem_append_right u (List.mem_cons_of_mem ']' List.mem_cons_self)) hr
  rw [declareListRule, toList_render_list]
  show (shortestRun _ (']' :: '\x7d' :: '[' :: (n ++ ']' :: r)) >>= _) = none
  rw [shortestRun, if_neg (by decide)]
  show (((shortestRun _ ('\x7d' :: '[' :: (n ++ ']' :: r))).map _) >>= _) = none
  rw [hrun]
  rfl

end Rules

/-! ### The rules in order -/

/-- The types of variables that hold no list, in the order of the rules for their declarations. -/
def declaredItems : List ItemType := [.int, .decimal .seven, .decimal .fifteen, .text]

theorem rules_eq_declarations :
    rules = rules.take 4 ++ (declaredItems.map declareRule ++ declareListRule :: rules.drop 9) :=
  rfl

section Lines

variable {n r s : List Char} {t : ItemType} {tag : TypeTag}

theorem mem_declaredItems (t : ItemType) : t ∈ declaredItems := by
  rcases t with _ | (_ | _) | _ <;> decide

/-- No rule for a type that is no list fits the declaration of a list. -/
theorem declaredItems_eq_none (t : ItemType) (r : List Char) :
    declaredItems.findSome? (declareRule · ((TypeTag.list t).render.toList ++ r)) = none :=
  List.findSome?_eq_none_iff.2 fun _ _ ↦ declareRule_eq_none (by simp) r

/-- Of several rules, the only one that fits is the first that fits. -/
theorem findSome?_of_unique {α β : Type} {f : α → Option β} {l : List α} {a : α} {b : β}
    (ha : a ∈ l) (hb : f a = some b) (h : ∀ c ∈ l, c ≠ a → f c = none) :
    l.findSome? f = some b := by
  induction l with
  | nil => cases ha
  | cons c l ih =>
    rw [List.findSome?_cons]
    by_cases hc : c = a
    · rw [hc, hb]
    · rw [h c List.mem_cons_self hc]
      exact ih ((List.mem_cons.1 ha).resolve_left (Ne.symm hc)) fun d hd ↦
        h d (List.mem_cons_of_mem c hd)

/-- Of the rules before those for declarations, none fits a line that starts with a brace. -/
theorem beforeDeclarations_eq_none (s : List Char) :
    (rules.take 4).findSome? (· ('\x7b' :: s)) = none := by
  rw [List.findSome?_eq_none_iff]
  simp only [rules, List.take_succ_cons, List.take_zero, List.forall_mem_cons]
  exact ⟨rfl, rfl, rfl, rfl, by simp⟩

theorem outputRule_eq_none {w : String} {newline : Bool} (h : ¬ w.toList <:+ s) :
    outputRule w newline s = none := by
  rw [outputRule, before?_eq_none_iff.2 h]
  rfl

/-- Of the rules behind those for declarations, only those for output may fit a line that starts
with a brace. -/
theorem afterDeclarations_eq_none (hend : ¬ (outputWord false).toList <:+ '\x7b' :: s) :
    (rules.drop 9).findSome? (· ('\x7b' :: s)) = none := by
  have hword : (outputWord false).toList <:+ (outputWord true).toList := ⟨"쿰척".toList, rfl⟩
  have hoff : outputRule "<쿰척" false ('\x7b' :: s) = none := outputRule_eq_none hend
  have hon : outputRule "쿰척<쿰척" true ('\x7b' :: s) = none :=
    outputRule_eq_none fun h ↦ hend (hword.trans h)
  rw [List.findSome?_eq_none_iff]
  simp only [rules, List.drop_succ_cons, List.drop_zero, List.forall_mem_cons]
  exact ⟨rfl, rfl, rfl, rfl, rfl, rfl, hon, hoff, rfl, rfl, rfl, rfl, rfl, rfl, rfl, rfl, rfl, rfl,
    rfl, rfl, rfl, rfl, rfl, rfl, rfl, rfl, rfl, rfl, rfl, rfl, rfl, rfl, by simp⟩

theorem exists_render_eq (tag : TypeTag) : ∃ s, tag.render.toList = '\x7b' :: s := by
  rcases tag with (_ | (_ | _) | _) | (_ | (_ | _) | _) <;> exact ⟨_, rfl⟩

/-- A line that starts with the spelling of a type, and so with a brace, is a declaration if a rule
for declarations fits. -/
theorem ofChars_render (tag : TypeTag) (r : List Char) :
    ofChars (tag.render.toList ++ r) =
      ((declaredItems.findSome? (declareRule · (tag.render.toList ++ r))).or
        ((declareListRule :: rules.drop 9).findSome? (· (tag.render.toList ++ r)))).getD
        (statement (.unknown (String.ofList (tag.render.toList ++ r)))) := by
  obtain ⟨s, hs⟩ := exists_render_eq tag
  have hbefore := beforeDeclarations_eq_none (s ++ r)
  rw [hs, List.cons_append, ofChars, rules_eq_declarations, List.findSome?_append, hbefore,
    Option.none_or, List.findSome?_append, List.findSome?_map]
  rfl

/-- A line that starts with a type, other than that of lists of text, and a plain name in brackets
declares the variable, whatever follows; only whether the word that shields it follows counts. -/
theorem ofChars_declaration (htag : tag ≠ .list .text) (hn : IsName n) (r : List Char) :
    ofChars (tag.render.toList ++ '[' :: (n ++ ']' :: r)) =
      statement (.declare (String.ofList n) tag (after? "포자맨".toList r).isSome) := by
  rw [ofChars_render]
  cases tag with
  | item t =>
    have hitem := findSome?_of_unique (mem_declaredItems t) (declareRule_eq hn t r) fun c _ hc ↦
      declareRule_eq_none (fun h ↦ hc (TypeTag.item.inj h).symm) _
    rw [hitem]
    rfl
  | list t =>
    have hspelling :
        t.spelling.toList ≠ [] ∧ ']' ∉ t.spelling.toList ∧ '\n' ∉ t.spelling.toList := by
      rcases t with _ | (_ | _) | _
      all_goals first | decide | exact absurd rfl htag
    have hlist := declareListRule_eq hspelling.1 hspelling.2.1 hspelling.2.2 hn r
    rw [String.ofList_toList, ItemType.ofSpelling_spelling] at hlist
    rw [declaredItems_eq_none, Option.none_or, toList_render_list, List.append_assoc,
      List.append_assoc, List.findSome?_cons, hlist]
    rfl

/-- A line that starts with the type of lists of text and a plain name in brackets is not
recognized if it has no brace behind the name and does not end as an output line does. -/
theorem ofChars_texts (hn : IsName n) (hr : '\x7d' ∉ r) {cs : List Char}
    (hcs : cs = (TypeTag.list .text).render.toList ++ '[' :: (n ++ ']' :: r))
    (hend : ¬ (outputWord false).toList <:+ cs) :
    ofChars cs = statement (.unknown (String.ofList cs)) := by
  obtain ⟨s, hs⟩ := exists_render_eq (.list .text)
  have hlist : declareListRule cs = none := by
    rw [hcs]
    exact declareListRule_eq_none hn hr
  have hafter : (rules.drop 9).findSome? (· cs) = none := by
    rw [hcs, hs] at hend ⊢
    exact afterDeclarations_eq_none hend
  have hline := ofChars_render (.list .text) ('[' :: (n ++ ']' :: r))
  rw [declaredItems_eq_none, ← hcs, Option.none_or, List.findSome?_cons, hlist, hafter] at hline
  exact hline

end Lines

theorem toList_declarationLine (tag : TypeTag) (name : String) (shielded : Bool) :
    (declarationLine tag name shielded).toList =
      tag.render.toList ++ '[' :: (name.toList ++ ']' :: (shieldWord shielded).toList) := by
  simp [declarationLine]

/-- A declaration does not end as an output line does. -/
theorem not_outputWord_suffix (tag : TypeTag) (name : String) (shielded : Bool) :
    ¬ (outputWord false).toList <:+ (declarationLine tag name shielded).toList := by
  intro h
  have hword : (']' :: (shieldWord shielded).toList) <:+
      (declarationLine tag name shielded).toList := by
    rw [toList_declarationLine, ← List.cons_append, ← List.append_assoc]
    exact List.suffix_append _ _
  have hends := List.suffix_or_suffix_of_suffix h hword
  revert hends
  cases shielded <;> decide

section Names

variable {name : String} {tag : TypeTag}

/-- The line that declares a variable is read as its declaration, whatever is written behind it. -/
theorem ofString_append (hn : IsName name.toList) (htag : tag ≠ .list .text) (shielded : Bool)
    (rest : String) :
    ofString (declarationLine tag name shielded ++ rest) = statement (.declare name tag
      (after? "포자맨".toList ((shieldWord shielded).toList ++ rest.toList)).isSome) := by
  have hline := ofChars_declaration htag hn ((shieldWord shielded).toList ++ rest.toList)
  rw [String.ofList_toList] at hline
  rw [← hline, ofString, String.toList_append, toList_declarationLine]
  simp only [List.append_assoc, List.cons_append]

/-- The declaration of a list of text is not recognized. -/
theorem ofString_texts (hn : IsName name.toList) (shielded : Bool) :
    ofString (declarationLine (.list .text) name shielded) =
      statement (.unknown (declarationLine (.list .text) name shielded)) := by
  have hbrace : '\x7d' ∉ (shieldWord shielded).toList := by cases shielded <;> decide
  have hline := ofChars_texts hn hbrace (toList_declarationLine (.list .text) name shielded)
    (not_outputWord_suffix (.list .text) name shielded)
  rwa [String.ofList_toList] at hline

end Names

end Line

/-! ### Variables that are shown -/

section Shown

open Line

variable {name : String} {v : Variable}

/-- A variable is shown as the declaration of an unshielded one, and its value behind it. -/
theorem Variable.exists_describe_eq (name : String) (v : Variable) :
    ∃ rest, v.describe name = declarationLine v.tag name false ++ (" = " ++ rest) := by
  refine ⟨v.value.render ++ (if v.shielded then " 포자맨" else "") ++ "\n", ?_⟩
  rw [← String.toList_inj]
  simp [Variable.describe, declarationLine, shieldWord]

/-- Among all variables, each is shown as it is alone. -/
theorem Store.exists_describe_eq {s : Store} (hv : s.lookup? name = some v) :
    ∃ before behind, s.describe = before ++ v.describe name ++ behind := by
  let shown (names : List String) : String :=
    String.join (names.filterMap fun name ↦ (s.lookup? name).map (Variable.describe name))
  obtain ⟨stack, hstack⟩ : ∃ stack, s.describe = shown s.names ++ stack :=
    ⟨_, by simp only [describe, shown, String.append_assoc]; rfl⟩
  obtain ⟨names, names', hsplit⟩ := List.append_of_mem (mem_names_iff.2 (by rw [hv]; rfl))
  have hshown : shown s.names = shown names ++ (v.describe name ++ shown names') := by
    simp only [shown, hsplit, List.filterMap_append, List.filterMap_cons, hv, Option.map_some,
      String.join_append, String.join_cons]
  refine ⟨shown names, shown names' ++ stack, ?_⟩
  rw [hstack, hshown]
  simp only [String.append_assoc]

/-- The inspection of a variable writes how it is shown. -/
theorem Tree.run_inspect (call : Callee) (id : Nat) (line : SourceLine) {m : Machine}
    (hv : m.store.lookup? name = some v) :
    (Tree.statement id line (.inspect (some name))).run call m =
      .ok .next { m with console := m.console.note (.output (v.describe name)) } := by
  rw [Tree.run]
  refine Action.within_of_ok ?_ line
  rw [Statement.run]
  exact Action.bind_of_ok (Action.read_get_of_some hv) _

end Shown

namespace Line

/-- A type is shown as in a declaration. For a plain name, the line of a type, the name in brackets
and possibly the word that shields is the declaration of this variable, for all types but that of
lists of text, with which the line is not recognized. When variables are inspected, one or all of
them, each is shown as the declaration of an unshielded variable of its name and type, with
something behind it, by which it is still the same declaration. -/
theorem ofString_declarationLine {name : String} (hn : IsName name.toList) :
    (∀ tag shielded, ofString (declarationLine tag name shielded) = .statement
      (if tag = .list .text then .unknown (declarationLine tag name shielded)
        else .declare name tag shielded)) ∧
    ∀ (call : Callee) (id : Nat) (line : SourceLine) (m : Machine) (v : Variable),
      m.store.lookup? name = some v → ∃ rest before behind,
        let shown := declarationLine v.tag name false ++ (" = " ++ rest)
        (Tree.statement id line (.inspect (some name))).run call m =
          .ok .next { m with console := m.console.note (.output shown) } ∧
        (Tree.statement id line (.inspect none)).run call m =
          .ok .next { m with console := m.console.note (.output (before ++ shown ++ behind)) } ∧
        (v.tag ≠ .list .text → ofString shown = .statement (.declare name v.tag false)) := by
  refine ⟨fun tag shielded ↦ ?_, fun call id line m v hv ↦ ?_⟩
  · split
    case isTrue htag => rw [htag, ofString_texts hn]
    case isFalse htag =>
      have hline := ofString_append hn htag shielded ""
      rw [String.append_empty] at hline
      rw [hline]
      cases shielded <;> rfl
  · obtain ⟨rest, hrest⟩ := v.exists_describe_eq name
    obtain ⟨before, behind, hall⟩ := Store.exists_describe_eq hv
    rw [hrest] at hall
    refine ⟨rest, before, behind, ?_, ?_, fun htag ↦ ?_⟩
    · rw [Tree.run_inspect call id line hv, hrest]
    · rw [Tree.run, ← hall]
      rfl
    · rw [ofString_append hn htag, String.toList_append]
      rfl

/-- A shielded list of decimals. -/
theorem ofString_declarationLine_decimals :
    let tag : TypeTag := .list (.decimal .fifteen)
    let v : Variable := { value := .default tag, tag, shielded := true }
    let m : Machine := { generator := .ofSeed 0, store := ({} : Store).put "a" v }
    IsName "a".toList ∧ m.store.lookup? "a" = some v ∧
      ofString "\x7bBMI[30.7ㅋㅋ]\x7d[a]포자맨" = .statement (.declare "a" tag true) ∧
      ∃ rest, let shown := "\x7bBMI[30.7ㅋㅋ]\x7d[a]" ++ (" = " ++ rest)
        (Tree.statement 0 ⟨1, ""⟩ (.inspect (some "a"))).run (callFunction 5) m =
          .ok .next { m with console := m.console.note (.output shown) } ∧
        ofString shown = .statement (.declare "a" tag false) := by
  intro tag v m
  have hname : IsName "a".toList := ⟨by decide, List.forall_mem_singleton.2 (by decide)⟩
  have hv : m.store.lookup? "a" = some v := by rw [Store.lookup?_put, if_pos rfl]
  have hline : "\x7bBMI[30.7ㅋㅋ]\x7d[a]포자맨" = declarationLine tag "a" true := by decide +kernel
  have hshown : "\x7bBMI[30.7ㅋㅋ]\x7d[a]" = declarationLine tag "a" false := by decide +kernel
  obtain ⟨hread, hinspect⟩ := ofString_declarationLine hname
  obtain ⟨rest, -, -, hrun, -, hagain⟩ := hinspect (callFunction 5) 0 ⟨1, ""⟩ m v hv
  rw [hline, hshown]
  exact ⟨hname, hv, hread tag true, rest, hrun, hagain (by decide)⟩

/-- The type of lists of text is shown as one that cannot be declared. -/
theorem ofString_declarationLine_texts :
    IsName "a".toList ∧ declarationLine (.list .text) "a" false = "\x7bBMI[]\x7d[a]" ∧
      ofString "\x7bBMI[]\x7d[a]" = .statement (.unknown "\x7bBMI[]\x7d[a]") := by
  have hname : IsName "a".toList := ⟨by decide, List.forall_mem_singleton.2 (by decide)⟩
  have hline : declarationLine (.list .text) "a" false = "\x7bBMI[]\x7d[a]" := by decide +kernel
  exact ⟨hname, hline, hline ▸ ofString_texts hname false⟩

end Line

end Haklang
